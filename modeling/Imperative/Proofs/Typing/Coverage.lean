import Imperative.Proofs.Grammar.Nesting
import Imperative.Proofs.Typing.Undeclared

/-!
# What the analysis looks at

An analysis that reports nothing has looked at every expression outside of written types, and at
no other.
-/

namespace Imperative.Typing

theorem mem_undeclared (mem : occ ∈ found) (isName : occ.tree = .name span lost)
    (isUnbound : occ.names.lookup lost = none) :
    (Problem.undeclaredIdentifier lost).toDiagnostic span ∈ undeclared lost found := by
  refine List.mem_map.mpr ⟨span, List.mem_filterMap.mpr ⟨occ, mem, ?_⟩, rfl⟩
  obtain ⟨names, tree⟩ := occ
  subst isName
  exact if_pos ⟨rfl, isUnbound⟩

/-- The table of an accepted program has one entry for each occurrence of an expression. -/
theorem spans_of_clean {program : Program} (analyzes : program.analyze.diagnostics = []) :
    program.analyze.types.map Prod.fst = (program.occurrences.map (·.tree.span)).reverse := by
  obtain ⟨post, loses⟩ := @checkAll_loses "" 0 program.declarations
    (Names.basic.hoist program.declarations)
  obtain ⟨firstClean, secondQuiet⟩ := passes_of_clean loses.grows analyzes
  have outcome := loses.ends .refl (declareAll_described firstClean) secondQuiet
  obtain ⟨visits, visited, fromNothing⟩ :=
    (declareAll_records (Outline.allIn_of_forall (fun _ => trivial)
      (program.declarations.map Declaration.outline))).types Analysis.initial
  have noVisits : visits = [] := by simpa using fromNothing
  have spans := outcome.spans
  rw [visited.whole, noVisits] at spans
  exact spans.trans (List.append_nil _)

theorem lookup_of_clean {program : Program} (analyzes : program.analyze.diagnostics = [])
    (mem : occ ∈ program.occurrences) (isName : occ.tree = .name span name) :
    occ.names.lookup name = some .variable := by
  obtain ⟨post, loses⟩ := @checkAll_loses name 0 program.declarations
    (Names.basic.hoist program.declarations)
  obtain ⟨firstClean, secondQuiet⟩ := passes_of_clean loses.grows analyzes
  have outcome := loses.ends .refl (declareAll_described firstClean) secondQuiet
  rcases outcome.known occ mem span name isName with isVariable | ⟨-, isUnbound⟩
  · exact isVariable
  · have noReports : undeclared name program.occurrences = [] :=
      List.append_right_eq_self.mp (outcome.diagnostics.symm.trans secondQuiet)
    have reported := mem_undeclared mem isName isUnbound
    rw [noReports] at reported
    cases reported

/--
Of the expressions of an accepted text, exactly those outside of written types have a type in the
table, and every name among them is that of a variable that is in scope where it stands.
-/
theorem accepted_nodes_analyzed {text : String} (parses : (Program.parse text).diagnostics = [])
    (analyzes : (Program.parse text).value.analyze.diagnostics = []) :
    let program := (Program.parse text).value
    ∀ node ∈ program.nodes,
      (node ∈ program.typeNodes ∧ program.analyze.typeAt node.span = none) ∨
        (node ∉ program.typeNodes ∧ (∃ type, program.analyze.typeAt node.span = some type) ∧
          ∃ names, { names, tree := node } ∈ program.occurrences ∧
            ∀ span name, node = .name span name → names.lookup name = some .variable) := by
  intro program node member
  have sorted := program.nodes_perm
  have distinct := (sorted.map Expr.span).nodup_iff.mp (Program.parse_spans_nodup parses)
  rw [List.map_append] at distinct
  have keys : ∀ span, span ∈ program.analyze.types.map Prod.fst ↔
      span ∈ (program.occurrences.map Occurrence.tree).map Expr.span := by
    intro span
    rw [spans_of_clean analyzes, List.mem_reverse, List.map_map]
    rfl
  rcases List.mem_append.mp (sorted.mem_iff.mp member) with inType | occurs
  · refine .inl ⟨inType, ?_⟩
    have notKey : node.span ∉ program.analyze.types.map Prod.fst := fun isKey =>
      List.disjoint_of_nodup_append distinct (List.mem_map_of_mem inType) ((keys _).mp isKey)
    refine List.lookup_eq_none_iff.mpr fun entry isEntry => ?_
    rw [bne_iff_ne]
    rintro isKey
    exact notKey (List.mem_map.mpr ⟨entry, isEntry, isKey.symm⟩)
  · have notInType : node ∉ program.typeNodes := fun inType =>
      List.disjoint_of_nodup_append distinct (List.mem_map_of_mem inType)
        (List.mem_map_of_mem occurs)
    obtain ⟨⟨span, type⟩, recorded, isSpan⟩ :=
      List.mem_map.mp ((keys _).mpr (List.mem_map_of_mem occurs))
    obtain ⟨⟨names, tree⟩, isOccurrence, isNode⟩ := List.mem_map.mp occurs
    cases isSpan
    cases isNode
    exact .inr ⟨notInType,
      ⟨type, Program.typeAt_of_mem (Program.parse_spans_nodup parses) recorded⟩,
      names, isOccurrence, fun _ _ isName => lookup_of_clean analyzes isOccurrence isName⟩

def coveredText : String :=
  "type R is record\nvar a : array[2] integer is missing\nend\nvar r : R\n" ++
    "routine main() is\nfor i in 1..2 loop\nr.a[i] := i\nend\nend\n"

theorem coveredText_accepted :
    ((Program.parse coveredText).diagnostics.isEmpty &&
      (Program.parse coveredText).value.analyze.diagnostics.isEmpty &&
        (Program.parse coveredText).value.nodes.length == 9 &&
          (Program.parse coveredText).value.typeNodes.length == 2) = true := by
  rw [@Program.parse_of_toList coveredText _
    (toList_append_of String.toList_ofList String.toList_ofList)]
  decide +kernel

theorem accepted_nodes_analyzed_coveredText :
    let program := (Program.parse coveredText).value
    (Program.parse coveredText).diagnostics = [] ∧ program.analyze.diagnostics = [] ∧
      program.nodes.length = 9 ∧ program.typeNodes.length = 2 ∧
      ∀ node ∈ program.nodes,
        (node ∈ program.typeNodes ∧ program.analyze.typeAt node.span = none) ∨
          (node ∉ program.typeNodes ∧ (∃ type, program.analyze.typeAt node.span = some type) ∧
            ∃ names, { names, tree := node } ∈ program.occurrences ∧
              ∀ span name, node = .name span name → names.lookup name = some .variable) := by
  have accepted := coveredText_accepted
  simp only [Bool.and_eq_true, List.isEmpty_iff, beq_iff_eq] at accepted
  obtain ⟨⟨⟨parses, analyzes⟩, nodeCount⟩, typeNodeCount⟩ := accepted
  exact ⟨parses, analyzes, nodeCount, typeNodeCount, accepted_nodes_analyzed parses analyzes⟩

def fieldInitialText : String := "type R is record\nvar a : integer is missing\nend\n"

theorem field_initial_not_analyzed :
    ((Program.parse fieldInitialText).diagnostics.isEmpty &&
      (Program.parse fieldInitialText).value.analyze.diagnostics.isEmpty &&
        (Program.parse fieldInitialText).value.analyze.types.isEmpty &&
          (Program.parse fieldInitialText).value.nodes.any fun node =>
            match node with
            | .name _ name => name == "missing"
            | _ => false) = true := by
  rw [@Program.parse_of_toList fieldInitialText _ String.toList_ofList]
  decide +kernel

end Imperative.Typing
