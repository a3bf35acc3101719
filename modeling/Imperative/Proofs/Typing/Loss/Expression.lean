import Imperative.Proofs.Typing.Loss.Basic

/-!
# Expressions without a declaration

A missing variable is taken for an error, and so is all that is made of it: nothing more is
reported for it.
-/

namespace Imperative.Typing

theorem infer_name :
    infer (.name span name) st = match st.symbols.lookup name with
      | some (.var type) => record span type st
      | some _ => (reject span (.notAVariable name) >>= record span) st
      | none => (reject span (.undeclaredIdentifier name) >>= record span) st := by
  rw [infer]
  simp only [variableType, lookup, bind, StateT.bind, get, getThe, MonadStateOf.get, StateT.get,
    Pure.pure]
  cases st.symbols.lookup name with
  | none => rfl
  | some sym => cases sym <;> rfl

theorem infer_name_loses : Forgets lost depth names (infer (.name span name)) Fades
      [{ names, tree := .name span name }] names where
  grows := by
    rw [infer]
    exact ((@Reads.follows .nothing _ _ (variableType_reads trivial)).bind fun _ =>
      record_follows).grows
  ends := by
    intro pre start lacks describes quiet
    have remains : Remains (name = lost) (pre.symbols.lookup name)
        (start.symbols.lookup name) := lacks.context
    have isKind : (start.symbols.lookup name).map Symbol.kind = names.lookup name :=
      describes.kinds name
    rw [infer_name] at quiet ⊢
    rw [infer_name]
    generalize pre.symbols.lookup name = found at remains quiet ⊢
    generalize start.symbols.lookup name = foundLeft at remains isKind ⊢
    cases remains with
    | none | type | routine =>
      exact absurd (List.append_right_eq_self.mp quiet) (List.cons_ne_nil _ _)
    | var fades =>
      have isVariable : names.lookup name = some .variable := isKind.symm
      refine ⟨fades, lacks, describes, fun _ => rfl, ?_, rfl, ?_⟩
      · have isBound : Occurrence.unbound? lost { names, tree := .name span name } = none := by
          rw [Occurrence.unbound?, if_neg]
          rintro ⟨rfl, isUnbound⟩
          rw [isVariable] at isUnbound
          cases isUnbound
        rw [undeclared, List.filterMap_cons_none isBound, List.filterMap_nil, List.map_nil,
          List.append_nil]
        rfl
      · intro occ mem _ other isName
        rw [List.mem_singleton] at mem
        subst mem
        cases isName
        exact .inl isVariable
    | gone type isLost =>
      subst isLost
      have isUnbound : names.lookup name = none := isKind.symm
      refine ⟨.error, lacks, describes, fun _ => rfl, ?_, rfl, ?_⟩
      · have isFound : Occurrence.unbound? name { names, tree := .name span name } = some span := by
          rw [Occurrence.unbound?, if_pos ⟨rfl, isUnbound⟩]
        rw [undeclared, List.filterMap_cons_some isFound, List.filterMap_nil]
        rfl
      · intro occ mem _ other isName
        rw [List.mem_singleton] at mem
        subst mem
        cases isName
        exact .inr ⟨rfl, isUnbound⟩

theorem fieldType_loses (fades : Fades recv left) :
    Loses lost depth names (fieldType span recv field) (fieldType span left field) Fades []
      names := by
  cases fades with
  | same =>
    unfold fieldType
    split
    · split
      · exact .pure .same
      · exact reject_loses
    · exact .pure .same
    · exact reject_loses
  | error => exact .absorbed (fieldType_reads trivial).follows

theorem elementType_loses (fades : Fades recv left) :
    Loses lost depth names (elementType span recv) (elementType span left) Fades [] names := by
  cases fades with
  | same =>
    unfold elementType
    split
    · exact .pure .same
    · exact .pure .same
    · exact reject_loses
  | error => exact .absorbed (elementType_reads trivial).follows

abbrev ArgumentsFade : List (Span × Ty) → List (Span × Ty) → Prop :=
  List.Forall₂ fun arg left => left.1 = arg.1 ∧ Fades arg.2 left.2

instance : Std.Refl ArgumentsFade where
  refl _ := List.forall₂_same.mpr fun _ _ => ⟨rfl, .same⟩

theorem checkArguments_loses (fade : ArgumentsFade args lefts) (pos : Nat) (params : List Ty) :
    Loses lost depth names (checkArguments pos args params)
      (checkArguments pos lefts params) Eq [] names := by
  induction fade generalizing pos params with
  | nil => exact .pure rfl
  | @cons arg left _ _ fades _ ih =>
    obtain ⟨span, found⟩ := arg
    obtain ⟨_, foundLeft⟩ := left
    obtain ⟨rfl, fades⟩ := fades
    cases params with
    | nil => exact .pure rfl
    | cons expected params =>
      rw [checkArguments, checkArguments]
      exact unless_bind_loses (fades.assignable .same) (ih (pos + 1) params)

theorem callType_loses (fade : ArgumentsFade args lefts) :
    Loses lost depth names (callType span name args) (callType span name lefts) Fades [] names := by
  apply lookup_loses.after
  intro found foundLeft remains
  cases remains with
  | none | var | type | gone => exact reject_loses
  | routine sig =>
    simp only [fade.length_eq]
    split
    · exact (checkArguments_loses fade 1 _).after fun _ _ _ => .pure .same
    · exact reject_loses

theorem unaryType_loses (fades : Fades operand left) :
    Loses lost depth names (unaryType span op operand) (unaryType span op left) Fades []
      names := by
  cases fades with
  | error => exact .absorbed (unaryType_reads trivial).follows
  | same =>
    unfold unaryType
    split
    · exact .pure .same
    · split
      all_goals
        split
        · exact .pure .same
        · exact reject_loses

theorem logicalType_loses (leftFades : Fades left leftLeft) (rightFades : Fades right rightLeft) :
    Loses lost depth names (logicalType span op left right)
      (logicalType span op leftLeft rightLeft) Fades [] names := by
  have loud : ∀ problem others, Loses lost depth names
      (do
        report span problem
        if (!right.assignable .boolean) = true then
          report span (.rightOperandType op right)
        return if left.assignable .boolean && right.assignable .boolean then .boolean else .error)
      others Fades [] names := fun problem others =>
    report_bind_loses (Follows.ite ((@report_follows .nothing _ _).bind fun _ => .pure _)
      (.pure _)).grows
  unfold logicalType
  cases leftFits : left.assignable .boolean with
  | false =>
    rw [leftFits] at loud
    exact loud _ _
  | true =>
    rw [leftFades.assignable .same leftFits]
    cases rightFits : right.assignable .boolean with
    | false => exact report_bind_loses fun _ => List.prefix_refl _
    | true =>
      rw [rightFades.assignable .same rightFits]
      exact .pure .same

theorem binaryType_of_error (isOther : ¬ op.isLogical = true)
    (isError : left = .error ∨ right = .error) : binaryType span op left right = pure .error := by
  have anyErr : (left.isError || right.isError) = true := by
    rcases isError with rfl | rfl
    · exact Bool.true_or _
    · exact Bool.or_true _
  rw [binaryType, if_neg isOther, if_pos anyErr]

theorem binaryType_loses (leftFades : Fades left leftLeft) (rightFades : Fades right rightLeft) :
    Loses lost depth names (binaryType span op left right)
      (binaryType span op leftLeft rightLeft) Fades [] names := by
  by_cases isLogical : op.isLogical = true
  · rw [binaryType, binaryType, if_pos isLogical, if_pos isLogical]
    exact logicalType_loses leftFades rightFades
  · have absorbs : Loses lost depth names (binaryType span op left right) (pure .error) Fades []
        names := .absorbed (binaryType_reads trivial op left right).follows
    cases leftFades with
    | error =>
      rw [binaryType_of_error isLogical (.inl rfl)]
      exact absorbs
    | same =>
      cases rightFades with
      | error =>
        rw [binaryType_of_error isLogical (.inr rfl)]
        exact absorbs
      | same =>
        rw [binaryType, if_neg isLogical]
        split
        · exact .pure .same
        · split
          · exact .pure .same
          · split
            · exact .pure .same
            · exact reject_loses

theorem checkIndex_loses (fades : Fades type left) :
    Loses lost depth names (checkIndex span type) (checkIndex span left) Eq [] names :=
  unless_loses (fades.assignable .same)

mutual

theorem infer_loses : (tree : Expr) →
    Forgets lost depth names (infer tree) Fades (tree.occurrences names) names
  | .integer span val => by
    rw [infer]
    exact record_loses .same (.integer span val) nofun
  | .real span val => by
    rw [infer]
    exact record_loses .same (.real span val) nofun
  | .boolean span val => by
    rw [infer]
    exact record_loses .same (.boolean span val) nofun
  | .name span name => infer_name_loses
  | .field span recv field => by
    rw [infer, Expr.occurrences_field]
    apply (infer_loses recv).bind
    intro recvType left fades
    exact (fieldType_loses fades).after fun _ _ fades =>
      record_loses fades (.field span recv field) nofun
  | .index span recv pos => by
    rw [infer, Expr.occurrences_index]
    apply (infer_loses recv).bind
    intro recvType recvLeft recvFades
    apply (infer_loses pos).bind
    intro posType posLeft posFades
    apply (checkIndex_loses posFades).after
    intro _ _ _
    exact (elementType_loses recvFades).after fun _ _ fades =>
      record_loses fades (.index span recv pos) nofun
  | .call span name args => by
    rw [infer, Expr.occurrences_call]
    apply (inferAll_loses args).bind
    intro found left fade
    exact (callType_loses fade).after fun _ _ fades =>
      record_loses fades (.call span name args) nofun
  | .unary span op operand => by
    rw [infer, Expr.occurrences_unary]
    apply (infer_loses operand).bind
    intro operandType left fades
    exact (unaryType_loses fades).after fun _ _ fades =>
      record_loses fades (.unary span op operand) nofun
  | .binary span op left right => by
    rw [infer, Expr.occurrences_binary]
    apply (infer_loses left).bind
    intro leftType leftLeft leftFades
    apply (infer_loses right).bind
    intro rightType rightLeft rightFades
    exact (binaryType_loses leftFades rightFades).after fun _ _ fades =>
      record_loses fades (.binary span op left right) nofun

theorem inferAll_loses : (trees : List Expr) →
    Forgets lost depth names (inferAll trees) ArgumentsFade (Expr.allOccurrences names trees) names
  | [] => by
    rw [inferAll]
    exact .pure .nil
  | first :: rest => by
    rw [inferAll, Expr.allOccurrences_cons]
    apply (infer_loses first).bind
    intro firstType left fades
    exact (inferAll_loses rest).before fun _ _ fade => .pure (.cons ⟨rfl, fades⟩ fade)

end

end Imperative.Typing
