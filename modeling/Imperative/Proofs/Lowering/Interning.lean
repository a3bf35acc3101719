import Imperative.Proofs.Lowering.Contents

/-!
# Interned function types

A module has each of its function types once, and the table in which types are looked up is kept
in step with them.
-/

namespace Imperative.Wasm

/-- What can be asked of a module that is being built. -/
inductive Request where
  | intern (type : FuncType)
  | addImport (source name : String) (type : FuncType)
  | addGlobal (global : Global)
  | addExport (name : String) (kind : ExportKind) (index : Nat)

/-- The import that is asked for, with its type. -/
def Request.imported? : Request → Option (String × String × FuncType)
  | .addImport source name type => some (source, name, type)
  | _ => none

namespace Module

/-- The module after one request. -/
def serve (module : Module) : Request → Module
  | .intern type => (module.intern type).2
  | .addImport source name type => (module.addImport source name type).2
  | .addGlobal global => (module.addGlobal global).2
  | .addExport name kind index => module.addExport name kind index

/-- The module after some requests. -/
def serveAll (module : Module) (requests : List Request) : Module :=
  requests.foldl serve module

/-- The entry is the import that was asked for, and its index is that of the type. -/
def HasImport (module : Module) (asked : String × String × FuncType) (entry : Import) : Prop :=
  (entry.module, entry.name) = (asked.1, asked.2.1) ∧
    module.types[entry.typeIndex]? = some asked.2.2

end Module

end Imperative.Wasm

namespace Imperative.Lowering

open List

open Wasm (FuncType Module Request)

variable {module post : Module} {imported : List (String × String × FuncType)}

theorem intern_eq_iff (indexed : module.Indexed) :
    module.intern type = (index, module) ↔ module.types[index]? = some type := by
  constructor
  · intro isKept
    have isFound := intern_found indexed type
    rwa [isKept] at isFound
  · intro isFound
    rw [Module.intern, (indexed type index).mpr isFound]

theorem hasImports_extend (imports : Forall₂ module.HasImport imported entries)
    (extended : module.types <+: post.types) : Forall₂ post.HasImport imported entries :=
  imports.imp fun _ _ has => ⟨has.1, getElem?_of_prefix extended has.2⟩

/-- Whatever is asked, each type stays where it is, and the table stays in step with the types. -/
theorem serveAll_types (requests : List Request) :
    module.types <+: (module.serveAll requests).types ∧
      (module.Indexed → (module.serveAll requests).Indexed) := by
  induction requests generalizing module with
  | nil => exact ⟨prefix_rfl, id⟩
  | cons request rest ih =>
    obtain ⟨extended, keepsIndexed⟩ := @ih (module.serve request)
    cases request with
    | intern type | addImport _ _ type =>
      have interned := intern_extends type module
      exact ⟨interned.types.trans extended, fun indexed => keepsIndexed (interned.indexed indexed)⟩
    | addGlobal | addExport => exact ⟨extended, keepsIndexed⟩

theorem serveAll_imports (indexed : module.Indexed)
    (imports : Forall₂ module.HasImport imported module.imports) (requests : List Request) :
    Forall₂ (module.serveAll requests).HasImport (imported ++ requests.filterMap Request.imported?)
      (module.serveAll requests).imports := by
  induction requests generalizing module imported with
  | nil => rwa [filterMap_nil, append_nil]
  | cons request rest ih =>
    cases request with
    | intern type =>
      have extended := intern_extends type module
      exact @ih (module.intern type).2 imported (extended.indexed indexed)
        (extended.imports ▸ hasImports_extend imports extended.types)
    | addImport source name type =>
      have extended := intern_extends type module
      have earlier :
        Forall₂ (module.intern type).2.HasImport imported (module.intern type).2.imports :=
        extended.imports ▸ hasImports_extend imports extended.types
      have added : (module.intern type).2.HasImport (source, name, type)
        ⟨source, name, (module.intern type).1⟩ := ⟨rfl, intern_found indexed type⟩
      rw [filterMap_cons, Request.imported?, append_cons]
      exact @ih (module.addImport source name type).2 _ (extended.indexed indexed)
        (rel_append earlier (.cons added .nil))
    | addGlobal | addExport => exact ih indexed imports

/-- Two requests for a type, whatever is asked between them, get one index only for one type. -/
theorem intern_index_eq_iff (indexed : module.Indexed) (requests : List Request) :
    (module.intern first).1 = (((module.intern first).2.serveAll requests).intern second).1 ↔
      first = second := by
  obtain ⟨extended, keepsIndexed⟩ := @serveAll_types (module.intern first).2 requests
  have laterIndexed := keepsIndexed ((intern_extends first module).indexed indexed)
  have isFound := getElem?_of_prefix extended (intern_found indexed first)
  generalize (module.intern first).2.serveAll requests = later at laterIndexed isFound
  constructor
  · intro sameIndex
    have isSecond := intern_found laterIndexed second
    have isFirst := (intern_extends second later).type? isFound
    rw [← sameIndex, isFirst] at isSecond
    exact Option.some.inj isSecond
  · rintro rfl
    rw [(intern_eq_iff laterIndexed).mpr isFound]

/-- The functions for printing that every program imports. -/
def printers (options : Options) : List (String × String × FuncType) :=
  [(options.hostModule, options.printInteger, ⟨[.i32], []⟩),
    (options.hostModule, options.printReal, ⟨[.f64], []⟩)]

theorem lower_interns (lowered : lower options program = .ok module) :
    module.Indexed ∧ Forall₂ module.HasImport (printers options) module.imports := by
  rw [lower] at lowered
  obtain ⟨st, -, isImage⟩ := except_bind_ok.mp lowered
  obtain ⟨image, isAdded, isPure⟩ := except_bind_ok.mp isImage
  cases isPure
  obtain ⟨extended, -⟩ := addRoutines_realize printingModule_indexed isAdded
  have whole := extended.trans (@addMemory_extends options image)
  have atFirst : Forall₂ (printingModule options).HasImport (printers options)
      (printingModule options).imports := .cons ⟨rfl, rfl⟩ (.cons ⟨rfl, rfl⟩ .nil)
  refine ⟨whole.indexed printingModule_indexed, ?_⟩
  rw [whole.imports]
  exact hasImports_extend atFirst whole.types

/--
In a module that is built by requests, and in one that a program is lowered to, no function type is
there twice, and the lookup table has each type with its index and nothing else.  Interning a type
gives the index of that type and keeps the types that are there; the module stays the same if and
only if it has the type.  So two requests for types get the same index only for the same type.
Each import has the index of the type it was added with.
-/
theorem function_types_interned (module : Module) (imported : List (String × String × FuncType))
    (built : (∃ requests, module = Module.empty.serveAll requests ∧
        imported = requests.filterMap Request.imported?) ∨
      ∃ options program, lower options program = .ok module ∧ imported = printers options) :
    module.types.Nodup ∧
      (∀ type index, module.typeLookup.lookup type = some index ↔
        module.types[index]? = some type) ∧
      (∀ type index, module.intern type = (index, module) ↔ module.types[index]? = some type) ∧
      (∀ type, (module.intern type).2.types[(module.intern type).1]? = some type ∧
        module.types <+: (module.intern type).2.types) ∧
      (∀ first second requests, (module.intern first).1 =
          (((module.intern first).2.serveAll requests).intern second).1 ↔ first = second) ∧
      Forall₂ module.HasImport imported module.imports := by
  have interns : module.Indexed ∧ Forall₂ module.HasImport imported module.imports := by
    rcases built with ⟨requests, rfl, rfl⟩ | ⟨options, program, lowered, rfl⟩
    · have imports := @serveAll_imports Module.empty [] Module.empty_indexed .nil requests
      exact ⟨(serveAll_types requests).2 Module.empty_indexed, imports⟩
    · exact lower_interns lowered
  obtain ⟨indexed, imports⟩ := interns
  exact ⟨indexed.nodup, indexed, fun _ _ => intern_eq_iff indexed,
    fun type => ⟨intern_found indexed type, (intern_extends type module).types⟩,
    fun _ _ => intern_index_eq_iff indexed, imports⟩

/-- The types and the imports of a module that is asked for a type twice. -/
theorem function_types_interned_twice :
    let printer : FuncType := ⟨[.i32], []⟩
    let module := Module.empty.serveAll
      [.intern ⟨[], []⟩, .addImport "env" "print" printer, .intern printer, .intern ⟨[], []⟩]
    module.types = [⟨[], []⟩, printer] ∧ module.types.Nodup ∧
      module.typeLookup.lookup printer = some 1 ∧
      Forall₂ module.HasImport [("env", "print", printer)] module.imports := by
  intro printer module
  obtain ⟨distinct, indexed, -, -, -, imports⟩ :=
    function_types_interned module [("env", "print", printer)] (.inl ⟨_, rfl, rfl⟩)
  exact ⟨rfl, distinct, (indexed printer 1).mpr rfl, imports⟩

end Imperative.Lowering
