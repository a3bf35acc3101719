import Imperative.Parser.Program
import Imperative.Proofs.Lowering.Routines
import Imperative.Proofs.Typing.Program
import Mathlib.Data.List.Nodup

/-!
# The names of exports

A module exports routines under their own names, each name once, and its memory under a name that
is chosen apart from them.
-/

namespace Imperative.Lowering

open List

open Wasm (FuncType Module)

/-- The names under which the module exports something. -/
def exportNames (module : Module) : List String := module.exports.map Wasm.Export.name

/-- Whether a routine is exported: it has a body, and is the entry point or one of all. -/
def Options.exportsRoutine (options : Options) (routine : Routine) : Bool :=
  routine.body.isSome && (decide (routine.name = options.entryPoint) || options.exportAll)

/-- A module got the given names as new exports, none of them twice, and no memory. -/
structure ExportsMore (pre post : Module) (new : String → Prop) : Prop where
  memory : post.memory = pre.memory
  nodup : (exportNames pre).Nodup → (exportNames post).Nodup
  mem : ∀ name, name ∈ exportNames post ↔ name ∈ exportNames pre ∨ new name

theorem ExportsMore.trans (one : ExportsMore pre mid first) (other : ExportsMore mid post second)
    (both : ∀ name, new name ↔ first name ∨ second name) : ExportsMore pre post new where
  memory := other.memory.trans one.memory
  nodup distinct := other.nodup (one.nodup distinct)
  mem name := by rw [other.mem, one.mem, both, or_assoc]

theorem intern_exports :
    (module.intern type).2.memory = module.memory ∧
      exportNames (module.intern type).2 = exportNames module := by
  unfold Module.intern
  split <;> exact ⟨rfl, rfl⟩

theorem exportNames_addExport :
    exportNames (module.addExport name kind index) = (exportNames module).concat name := by
  rw [concat_eq_append]
  exact map_append

theorem findExport?_isSome : (module.findExport? name).isSome = true ↔
    name ∈ exportNames module := by
  simp [Module.findExport?, exportNames]

section Routines

variable {options : Options} {image : Image}

theorem addRoutine_exports (hasBody : routine.body = some body)
    (isOk : addRoutine options env deferred routine body image = .ok post) :
    ExportsMore image.module post.module fun name =>
      options.exportsRoutine routine = true ∧ routine.name = name := by
  rw [addRoutine] at isOk
  cases registered : env.routines.lookup routine.name with
  | none =>
    rw [registered] at isOk
    cases isOk
  | some info =>
    rw [registered] at isOk
    obtain ⟨type, -, isInterned⟩ := except_bind_ok.mp isOk
    obtain ⟨sameMemory, sameNames⟩ := intern_exports
    dsimp only at isInterned
    generalize image.module.intern type = interned at sameMemory sameNames isInterned
    obtain ⟨⟨code, workspace⟩, -, isPure⟩ := except_bind_ok.mp isInterned
    cases isPure
    simp only [Bool.and_eq_true, Bool.not_eq_true', ← Bool.not_eq_true, findExport?_isSome,
      Options.exportsRoutine, hasBody, Option.isSome_some, true_and]
    generalize isDefined : (interned.2.addFunction _).2 = defined
    have known : exportNames defined = exportNames image.module := isDefined ▸ sameNames
    have unset : defined.memory = image.module.memory := isDefined ▸ sameMemory
    split
    · next exported =>
      refine ⟨unset, fun distinct => ?_, fun name => ?_⟩
      · rw [exportNames_addExport, known]
        exact .concat (known ▸ exported.2) distinct
      · rw [exportNames_addExport, known, concat_eq_append, mem_append, mem_singleton, eq_comm]
        simp only [exported.1, true_and]
    · next kept =>
      refine ⟨unset, fun distinct => known ▸ distinct, fun name => ?_⟩
      rw [known, iff_self_or]
      rintro ⟨chosen, rfl⟩
      exact Classical.byContradiction fun fresh => kept ⟨chosen, known ▸ fresh⟩

theorem addRoutines_exports (isOk : addRoutines options env deferred image decls = .ok post) :
    ExportsMore image.module post.module fun name =>
      ∃ routine, .routine routine ∈ decls ∧ options.exportsRoutine routine = true ∧
        routine.name = name := by
  induction decls generalizing image with
  | nil =>
    cases isOk
    exact ⟨rfl, id, by simp⟩
  | cons decl rest ih =>
    cases decl with
    | var | type => simpa using ih isOk
    | routine routine =>
      rw [addRoutines] at isOk
      cases hasBody : routine.body with
      | none =>
        rw [hasBody] at isOk
        have notExported : options.exportsRoutine routine = false := by
          simp [Options.exportsRoutine, hasBody]
        simpa [or_and_right, exists_or, notExported] using ih isOk
      | some body =>
        rw [hasBody] at isOk
        obtain ⟨mid, isFirst, isRest⟩ := except_bind_ok.mp isOk
        refine (addRoutine_exports hasBody isFirst).trans (ih isRest) ?_
        simp [or_and_right, exists_or]

end Routines

theorem addMemory_exports {image : Image} (used : image.memory.isUsed = true) :
    (addMemory options image).memory.isSome = true ∧
      exportNames (addMemory options image) = (exportNames image.module).concat
        options.memoryName := by
  rw [addMemory, if_pos used]
  exact ⟨rfl, exportNames_addExport⟩

/--
The names of the exports are distinct, unless a routine is exported under the name of the memory
and the memory is in use.
-/
theorem exportNames_nodup_iff {options : Options} {program : Program} {module : Module}
    (lowered : lower options program = .ok module) :
    (exportNames module).Nodup ↔
      ¬ (module.memory.isSome = true ∧ ∃ routine ∈ program.routines,
        options.exportsRoutine routine = true ∧ routine.name = options.memoryName) := by
  rw [lower] at lowered
  obtain ⟨state, -, isImage⟩ := except_bind_ok.mp lowered
  obtain ⟨image, isAdded, isPure⟩ := except_bind_ok.mp isImage
  cases isPure
  have added := addRoutines_exports isAdded
  have distinct : (exportNames image.module).Nodup := added.nodup nodup_nil
  have noneBefore : ∀ name, name ∉ exportNames (printingModule options) := nofun
  cases used : image.memory.isUsed with
  | true =>
    obtain ⟨declared, names⟩ := addMemory_exports used
    rw [names, nodup_concat, and_iff_left distinct, added.mem]
    simp only [Program.mem_routines, declared, true_and]
    exact not_congr (or_iff_right (noneBefore options.memoryName))
  | false =>
    have unset : image.module.memory = none := added.memory
    rw [addMemory, if_neg (by simp [used])]
    simp [distinct, unset]

def exportingOptions : Options := { Options.standard with exportAll := true }

def exportedText : String :=
  "var a : array[2] integer\nroutine get(i : integer) : integer => a[i]\n" ++
    "routine main() is\nprint get(1)\nend\n"

theorem exportedText_lowered :
    (((Program.parse exportedText).value.routines.all fun routine => routine.name != "memory") &&
      (lower exportingOptions (Program.parse exportedText).value).toOption.any fun module =>
        module.memory.isSome && exportNames module == ["get", "main", "memory"]) = true := by
  rw [@Program.parse_of_toList exportedText _
    (toList_append_of String.toList_ofList String.toList_ofList)]
  decide +kernel

theorem exportNames_nodup_exportedText :
    ∃ module, lower exportingOptions (Program.parse exportedText).value = .ok module ∧
      module.memory.isSome = true ∧ exportNames module = ["get", "main", "memory"] ∧
      (exportNames module).Nodup := by
  have isLowered := exportedText_lowered
  rw [Bool.and_eq_true] at isLowered
  obtain ⟨otherNames, isLowered⟩ := isLowered
  obtain ⟨module, lowered, exports⟩ := exists_of_any isLowered
  obtain ⟨declared, names⟩ := Bool.and_eq_true_iff.mp exports
  refine ⟨module, lowered, declared, eq_of_beq names, (exportNames_nodup_iff lowered).mpr ?_⟩
  rintro ⟨-, routine, member, -, isMemory⟩
  have other := all_eq_true.mp otherNames routine member
  rw [isMemory] at other
  cases other

def memoryRoutineText : String := "var a : array[2] integer\nroutine memory() is\nprint a[1]\nend\n"

def acceptedExports? (options : Options) (text : String) : Option (List String) :=
  if (Program.parse text).diagnostics.isEmpty &&
      (Program.parse text).value.analyze.diagnostics.isEmpty then
    (lower options (Program.parse text).value).toOption.map exportNames
  else none

theorem exportNames_memoryRoutineText :
    acceptedExports? exportingOptions memoryRoutineText = some ["memory", "memory"] ∧
      acceptedExports? { Options.standard with entryPoint := "memory" } memoryRoutineText =
        some ["memory", "memory"] ∧
      ¬ ["memory", "memory"].Nodup := by
  unfold acceptedExports?
  rw [@Program.parse_of_toList memoryRoutineText _ String.toList_ofList]
  decide +kernel

end Imperative.Lowering
