import Imperative.Proofs.Grammar.Spans

/-!
# What is inside of a node

A node of a program that is read without a diagnostic spans its own tokens, and the tokens of what
is inside of it are some of them.  A block without tokens has the empty span before the token that
ends it, and this token belongs to what the block is in.
-/

namespace Imperative

namespace Outline

mutual

/-- Whether the span of every node contains the spans of the nodes right inside of it. -/
def nested : Outline → Bool
  | node span inner => nestedIn span inner

/-- Whether the span contains those of the outlines, and these are nested. -/
def nestedIn (outer : Span) : List Outline → Bool
  | [] => true
  | first :: rest => outer.contains first.span && first.nested && nestedIn outer rest

end

def inner : Outline → List Outline
  | node _ inner => inner

def Within (low high : Nat) (outlines : List Outline) : Prop :=
  ∀ outline ∈ outlines, low ≤ outline.span.start ∧ outline.span.stop ≤ high ∧ outline.nested = true

theorem nestedIn_iff : nestedIn outer outlines = true ↔ Within outer.start outer.stop outlines := by
  induction outlines with
  | nil => simp [nestedIn, Within]
  | cons first rest ih => simp [nestedIn, Within, Span.contains, ih, and_assoc]

namespace Within

variable {low high : Nat} {outlines : List Outline}

theorem widen (within : Within low high outlines) (below : lower ≤ low) (above : high ≤ higher) :
    Within lower higher outlines := by
  intro outline isIn
  obtain ⟨starts, stops, nested⟩ := within outline isIn
  exact ⟨Nat.le_trans below starts, Nat.le_trans stops above, nested⟩

theorem append (within : Within low high outlines) (more : Within low high others) :
    Within low high (outlines ++ others) := List.forall_mem_append.mpr ⟨within, more⟩

theorem node {span : Span} (within : Within span.start span.stop outlines)
    (starts : low ≤ span.start) (stops : span.stop ≤ high) :
    Within low high [.node span outlines] :=
  List.forall_mem_singleton.mpr ⟨starts, stops, nestedIn_iff.mpr within⟩

theorem inside (within : Within low high [outline]) : Within low high outline.inner := by
  cases outline with
  | node span inner =>
    obtain ⟨starts, stops, nested⟩ := List.forall_mem_singleton.mp within
    exact (nestedIn_iff.mp nested).widen starts stops

end Within

end Outline

theorem Expr.outline_eq (tree : Expr) : tree.outline = .node tree.span tree.outline.inner := by
  cases tree <;> rfl

theorem Expr.inner_withSpan (tree : Expr) (span : Span) :
    (tree.withSpan span).outline.inner = tree.outline.inner := by
  cases tree <;> rfl

theorem VarDecl.outline_mk (span : Span) (name : String) (type : Option TypeExpr)
    (init : Option Expr) :
    (VarDecl.mk span name type init).outline =
      .node span ((type.map TypeExpr.outline).toList ++ (init.map Expr.outline).toList) := by
  cases type <;> rfl

theorem Routine.outline_mk (span : Span) (name : String) (params : List Parameter)
    (res : Option TypeExpr) (body : Option Body) :
    (Routine.mk span name params res body).outline =
      .node span (params.map Parameter.outline ++
        ((res.map TypeExpr.outline).toList ++ (body.map Body.outline).toList)) := by
  cases body with
  | none => rw [Option.map_none, Option.toList_none, List.append_nil, Routine.outline]
  | some => rfl

namespace Grammar

open Imperative.Parser (spanOver endOf Separators)
open Imperative.Outline (Within)

variable {toks : List Token}

/--
Wherever the tokens lie, the outlines are between them and nested, and so are the expressions, with
different spans.
-/
structure Encloses (toks : List Token) (outlines : List Outline) (trees : List Expr) : Prop where
  within : ∀ low high, Laid low toks high → Within low high outlines
  spaced : Spaced toks trees

namespace Encloses

variable {first : List Token} {trees : List Expr}

theorem nil (toks : List Token) : Encloses toks [] [] :=
  ⟨fun _ _ _ => List.forall_mem_nil _, .nil _⟩

theorem append (encloses : Encloses first outlines trees) (next : Encloses second others more) :
    Encloses (first ++ second) (outlines ++ others) (trees ++ more) where
  within low high laid := by
    obtain ⟨mid, laidFirst, laidSecond⟩ := laid_append.mp laid
    have ofFirst := (encloses.within _ _ laidFirst).widen (Nat.le_refl _) laidSecond.le
    exact ofFirst.append ((next.within _ _ laidSecond).widen laidFirst.le (Nat.le_refl _))
  spaced := encloses.spaced.append next.spaced

theorem swap (encloses : Encloses toks (outlines ++ others) trees) :
    Encloses toks (others ++ outlines) trees where
  within low high laid := List.forall_mem_append.mpr
    (List.forall_mem_append.mp (encloses.within low high laid)).symm
  spaced := encloses.spaced

theorem cons (tok : Token) (encloses : Encloses first outlines trees) :
    Encloses (tok :: first) outlines trees := append (nil [tok]) encloses

theorem after (front : List Token) (encloses : Encloses first outlines trees) :
    Encloses (front ++ first) outlines trees := append (nil front) encloses

theorem snoc (encloses : Encloses first outlines trees) :
    Encloses (first ++ [tok]) outlines trees := by
  have whole := append encloses (nil [tok])
  rwa [List.append_nil, List.append_nil] at whole

theorem node (encloses : Encloses toks outlines trees) (notEmpty : toks ≠ [])
    (isSpan : span = spanOver toks) : Encloses toks [.node span outlines] trees where
  within low high laid := by
    subst isSpan
    have between := laid.spanOver notEmpty
    exact (encloses.within _ _ (laid.tight notEmpty)).node between.1 between.2.2
  spaced := encloses.spaced

theorem tree {tree : Expr} (encloses : Encloses toks tree.outline.inner trees)
    (notEmpty : toks ≠ []) (spread : ∀ low high, Laid low toks high → Spread toks tree) :
    Encloses toks [tree.outline] trees where
  within low high laid := by
    rw [tree.outline_eq]
    exact (encloses.node notEmpty (spread low high laid).span).within low high laid
  spaced := encloses.spaced

theorem consNode (encloses : Encloses first outlines trees)
    (isSpan : span = spanOver (tok :: first)) :
    Encloses (tok :: first) [.node span outlines] trees :=
  (encloses.cons tok).node (List.cons_ne_nil _ _) isSpan

end Encloses

def Phrase.outlines : Phrase → List Outline
  | .expression _ tree => [tree.outline]
  | .arguments trees => Expr.outlines trees

def Phrase.nodes : Phrase → List Expr
  | .expression _ tree => tree.nodes
  | .arguments trees => Expr.allNodes trees

theorem Writes.outlined {phrase : Phrase} (writes : Writes toks phrase) :
    Encloses toks phrase.outlines [] := by
  induction writes with
  | integer | real | boolean | name => exact (Encloses.nil _).consNode spanOver_singleton.symm
  | call isName opens inner closes ih =>
    exact (Encloses.cons _ (.cons _ (.snoc ih))).tree (List.cons_ne_nil _ _)
      (Writes.call isName opens inner closes).spread
  | parenthesized opens inner closes ih =>
    refine Encloses.tree ?_ (List.cons_ne_nil _ _) (Writes.parenthesized opens inner closes).spread
    rw [Expr.inner_withSpan]
    exact .cons _ (.snoc ⟨fun low high laid => (ih.within low high laid).inside, .nil _⟩)
  | field selects isDot isName ih =>
    exact (ih.append (.nil _)).tree (by simp) (Writes.field selects isDot isName).spread
  | index selects opens inner closes ofRecv ofPos =>
    exact (Encloses.snoc (ofRecv.append (.cons _ ofPos))).tree (by simp)
      (Writes.index selects opens inner closes).spread
  | unary isOperator inner ih =>
    exact (Encloses.cons _ ih).tree (List.cons_ne_nil _ _) (Writes.unary isOperator inner).spread
  | binary onLeft isOperator onRight ofLeft ofRight =>
    exact (ofLeft.append (.cons _ ofRight)).tree (by simp)
      (Writes.binary onLeft isOperator onRight).spread
  | tighter _ _ ih => exact ih
  | noArguments => exact .nil _
  | lastArgument _ ih => exact ih
  | argument _ _ _ ofFirst ofOthers => exact ofFirst.append (.cons _ ofOthers)

theorem Writes.encloses (writes : Writes toks phrase) :
    Encloses toks phrase.outlines phrase.nodes where
  within := writes.outlined.within
  spaced := by
    cases phrase with
    | expression => exact Spread.spaced writes.spread (ne_nil_of_begins writes.begins)
    | arguments => exact writes.spread

theorem WritesSize.encloses (writes : WritesSize toks size) :
    Encloses toks (size.map Expr.outline).toList (Expr.optionNodes size) := by
  cases writes with
  | missing | unsized => exact .nil _
  | sized _ inner => exact .cons _ (.snoc inner.encloses)

theorem WritesInitial.encloses (writes : WritesInitial toks init) :
    Encloses toks (init.map Expr.outline).toList (Expr.optionNodes init) := by
  cases writes with
  | missing => exact .nil _
  | given _ inner => exact .cons _ inner.encloses

def TypePhrase.outlines : TypePhrase → List Outline
  | .type tree => [tree.outline]
  | .ascription tree => (tree.map TypeExpr.outline).toList
  | .varDecl decl => [decl.outline]
  | .fields decls => VarDecl.outlines decls

def TypePhrase.nodes : TypePhrase → List Expr
  | .type tree => tree.nodes
  | .ascription tree => TypeExpr.optionNodes tree
  | .varDecl decl => decl.nodes
  | .fields decls => VarDecl.allNodes decls

theorem WritesType.encloses (writes : WritesType toks phrase) :
    Encloses toks phrase.outlines phrase.nodes := by
  induction writes with
  | primitive | named => exact (Encloses.nil _).consNode spanOver_singleton.symm
  | record _ _ _ _ ih => exact (Encloses.after _ (.snoc ih)).consNode (by simp [spanOver])
  | array _ inBrackets _ ih =>
    -- The size comes before the element in the text and after it in the outline.
    exact (inBrackets.encloses.append ih).swap.consNode rfl
  | untyped | noFields => exact .nil _
  | typed _ _ ih => exact .cons _ ih
  | varDecl _ _ _ ofInitial ih =>
    rw [TypePhrase.outlines, VarDecl.outline_mk, TypePhrase.nodes, VarDecl.nodes_mk]
    exact (Encloses.cons _ (ih.append ofInitial.encloses)).consNode rfl
  | field _ _ _ ofFirst ofRest => exact ofFirst.append (.after _ ofRest)

theorem WritesSimple.encloses (writes : WritesSimple toks declaration) :
    Encloses toks [declaration.outline] declaration.nodes := by
  cases writes with
  | var inner => exact inner.encloses
  | type _ _ _ inner => exact (Encloses.cons _ (.cons _ inner.encloses)).consNode rfl

/-- The block lies between the end of the token before it and the end of the one after it. -/
structure EnclosesBlock (pre after : Token) (toks : List Token) (block : Block) : Prop where
  within : ∀ low high, pre.span.stop ≤ low → Laid low (toks ++ [after]) high →
    Within low high [block.outline]
  spaced : Spaced toks block.nodes

theorem Encloses.toBlock (encloses : Encloses toks (Item.outlines items) (Item.allNodes items))
    {pre after : Token} : EnclosesBlock pre after toks (.mk (blockSpan pre toks after) items) where
  within low high starts laid := by
    obtain ⟨mid, laidToks, laidPost⟩ := laid_append.mp laid
    cases toks with
    | nil =>
      obtain ⟨afterStarts, hasLength, ends⟩ := laidPost
      have begins : low ≤ mid := laidToks
      have isEmpty : (blockSpan pre [] after).stop = (blockSpan pre [] after).start := by
        simp only [Span.stop] at starts
        simp [blockSpan, Span.upTo, Span.stop]
        omega
      refine Within.node (encloses.within _ _ (Nat.le_of_eq isEmpty.symm)) ?_ ?_
      · exact Nat.le_trans begins afterStarts
      · rw [isEmpty]
        exact Nat.le_trans (Nat.le_of_lt hasLength) ends
    | cons first rest =>
      have node := encloses.node (List.cons_ne_nil _ _) rfl
      exact (node.within low mid laidToks).widen (Nat.le_refl _) laidPost.le
  spaced := encloses.spaced

namespace EnclosesBlock

variable {pre after : Token} {first : List Token}

theorem closed (encloses : EnclosesBlock pre after first block) :
    Encloses (pre :: (first ++ [after])) [block.outline] block.nodes where
  within low high laid := by
    obtain ⟨starts, hasLength, laid⟩ := laid
    exact (encloses.within _ _ (Nat.le_refl _) laid).widen (by omega) (Nat.le_refl _)
  spaced := .cons (.snoc encloses.spaced)

theorem closed_append (encloses : EnclosesBlock pre between first block)
    (more : EnclosesBlock between after second another) :
    Encloses (pre :: (first ++ between :: (second ++ [after])))
      [block.outline, another.outline] (block.nodes ++ another.nodes) where
  within low high laid := by
    obtain ⟨starts, hasLength, laid⟩ := laid
    obtain ⟨mid, laidFirst, begins, betweenLength, laidSecond⟩ := laid_append.mp laid
    have ofFirst := encloses.within _ between.span.stop (Nat.le_refl _)
      (laid_append.mpr ⟨mid, laidFirst, begins, betweenLength, Nat.le_refl _⟩)
    have ofSecond := more.within _ _ (Nat.le_refl _) laidSecond
    have := laidFirst.le
    have := laidSecond.le
    exact (ofFirst.widen (by omega) (by omega)).append (ofSecond.widen (by omega) (by omega))
  spaced := .cons (encloses.spaced.append (.cons (.snoc more.spaced)))

end EnclosesBlock

/-- A statement, an item or the items of a block lie between their tokens. -/
def StatementPhrase.Enclosed (toks : List Token) : StatementPhrase → Prop
  | .statement tree => Encloses toks [tree.outline] tree.nodes
  | .block pre after tree => EnclosesBlock pre after toks tree
  | .item tree => Encloses toks [tree.outline] tree.nodes
  | .items trees => Encloses toks (Item.outlines trees) (Item.allNodes trees)

def headerNodes : Parser.LoopHeader → List Expr
  | .range first last => first.nodes ++ last.nodes
  | .array array => array.nodes

theorem WritesHeader.encloses (writes : WritesHeader toks header) :
    Encloses toks header.outlines (headerNodes header) := by
  cases writes with
  | range onLow _ onHigh => exact onLow.encloses.append (.cons _ onHigh.encloses)
  | array inner => exact inner.encloses

theorem outline_loopStatement :
    (loopStatement span iter dir body header).outline =
      .node span (header.outlines ++ [body.outline]) := by
  cases header <;> rfl

theorem nodes_loopStatement :
    (loopStatement span iter dir body header).nodes = headerNodes header ++ body.nodes := by
  cases header with
  | range first last => rw [loopStatement, Statement.nodes, headerNodes, List.append_assoc]
  | array array => rw [loopStatement, Statement.nodes, headerNodes]

theorem WritesStatement.enclosed (writes : WritesStatement toks phrase) : phrase.Enclosed toks := by
  induction writes with
  | assign onLeft _ _ onRight =>
    exact (onLeft.encloses.append (.cons _ onRight.encloses)).node (by simp) rfl
  | call inner | declarationItem inner => exact inner.encloses
  | branch _ test _ _ _ ih | whileLoop _ test _ _ _ ih =>
    exact (test.encloses.append ih.closed).consNode (by simp [spanOver])
  | branchElse _ test _ _ _ _ _ ofFirst ofSecond =>
    exact (test.encloses.append (ofFirst.closed_append ofSecond)).consNode (by simp [spanOver])
  | forLoop _ _ _ ofHeader _ _ _ _ ih =>
    rw [StatementPhrase.Enclosed, outline_loopStatement, nodes_loopStatement]
    exact (Encloses.cons _ (.cons _ (ofHeader.encloses.append
      (.after _ ih.closed)))).consNode (by simp [spanOver])
  | returnNothing => exact (Encloses.nil _).consNode rfl
  | returnValue _ inner | print _ inner => exact inner.encloses.consNode rfl
  | block _ _ ih => exact (Encloses.after _ ih).toBlock
  | statementItem _ ih => exact ih
  | noItems => exact .nil _
  | item _ _ _ _ ofFirst ofRest => exact ofFirst.append (.after _ ofRest)

theorem WritesParameters.encloses (writes : WritesParameters toks params) :
    Encloses toks (params.map Parameter.outline) (params.flatMap (·.type.nodes)) := by
  induction writes with
  | last _ _ inner =>
    rw [List.flatMap_singleton]
    exact (Encloses.cons _ inner.encloses).consNode rfl
  | @more name colon _ _ _ _ _ _ _ inner _ _ ih =>
    have ofFirst := (Encloses.cons colon inner.encloses).consNode (rfl : spanOver (name :: _) = _)
    exact ofFirst.append (.cons _ ih)

theorem WritesBody.encloses (writes : WritesBody toks body) :
    Encloses toks (body.map Body.outline).toList (Body.optionNodes body) := by
  cases writes with
  | missing => exact .nil _
  | expression _ inner => exact .cons _ inner.encloses
  | block _ inner => exact inner.enclosed.closed

theorem WritesRoutine.encloses (writes : WritesRoutine toks routine) :
    Encloses toks [routine.outline] routine.nodes := by
  cases writes with
  | @mk _ _ _ _ first _ _ params _ _ _ _ _ ofParameters _ ofResult ofBody =>
    have isIn : Encloses first (params.map Parameter.outline)
        (params.flatMap (·.type.nodes)) := by
      obtain ⟨rfl, rfl⟩ | ofParameters := ofParameters
      · exact .nil _
      · exact ofParameters.encloses
    rw [Routine.outline_mk, Routine.nodes_mk]
    exact (Encloses.cons _ (.cons _ (isIn.append
      (.cons _ (ofResult.encloses.append ofBody.encloses))))).consNode rfl

theorem WritesDeclarations.encloses (writes : WritesDeclarations toks declarations) :
    Encloses toks (declarations.map Declaration.outline) (Declaration.allNodes declarations) := by
  induction writes with
  | nil => exact .nil _
  | cons inner _ _ _ ih =>
    cases inner with
    | simple inner | routine inner => exact inner.encloses.append (.after _ ih)

theorem WritesProgram.encloses
    (writes : WritesProgram closing toks program) (laid : Laid low toks closing.start) :
    program.outline.nested = true ∧ (spans program.nodes).Nodup := by
  cases writes with
  | @mk separators inside declarations _ inner =>
    have encloses := inner.encloses.after separators
    refine ⟨Outline.nestedIn_iff.mpr ?_, (encloses.spaced _ _ laid).distinct⟩
    have closes : closing.start ≤ closing.stop := Nat.le_add_right _ _
    generalize separators ++ inside = toks at laid encloses
    cases toks with
    | nil =>
      rw [List.head?_nil, Option.map_none, Option.getD_none, upTo_stop]
      exact encloses.within _ _ closes
    | cons first rest =>
      obtain ⟨-, hasLength, laid⟩ := laid
      have := laid.le
      rw [List.head?_cons, Option.map_some, Option.getD_some, start_upTo, stop_upTo (by omega)]
      exact (encloses.within _ _ ⟨Nat.le_refl _, hasLength, laid⟩).widen (Nat.le_refl _) closes

end Grammar

/-- No two expressions of a program that is read without a diagnostic have the same span. -/
theorem Program.parse_spans_nodup (parses : (Program.parse text).diagnostics = []) :
    (Grammar.spans (Program.parse text).value.nodes).Nodup :=
  ((Program.parse_writes parses).encloses Parser.Feed.ofCursor_laid).2

/--
The span of every node of a program that is read without a diagnostic contains the spans of the
nodes right inside of it.
-/
theorem Program.parse_nested {text : String} (parses : (Program.parse text).diagnostics = []) :
    (Program.parse text).value.outline.nested = true :=
  ((Program.parse_writes parses).encloses Parser.Feed.ofCursor_laid).1

/-- A program with parentheses, two empty blocks and a block that starts with separators. -/
def nestingText : String := "routine f(x : integer) is\n;\nif ((x) > 0) then else end\nend\n"

theorem parse_nested_nestingText :
    (Program.parse nestingText).diagnostics = [] ∧
      (Program.parse nestingText).value.outline.nested = true := by
  have parses : (Program.parse nestingText).diagnostics = [] := by
    rw [@Program.parse_of_toList nestingText _ String.toList_ofList]
    decide +kernel
  exact ⟨parses, Program.parse_nested parses⟩

end Imperative
