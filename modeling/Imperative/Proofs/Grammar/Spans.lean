import Imperative.Proofs.Grammar.ProgramSentences
import Imperative.Proofs.Syntax.Nodes

/-!
# The spans of expressions

The tokens of a text lie one after another.  Therefore an expression spans exactly the tokens
that write it, and expressions that stand side by side do not overlap.
-/

namespace Imperative.Grammar

open List

open Imperative.Parser (spanOver endOf Separators)

variable {toks : List Token}

/-- The tokens lie one after another between two offsets, and none of them is empty. -/
def Laid (low : Nat) : List Token → Nat → Prop
  | [], high => low ≤ high
  | token :: rest, high =>
    low ≤ token.span.start ∧ token.span.start < token.span.stop ∧ Laid token.span.stop rest high

theorem laid_append :
    Laid low (first ++ second) high ↔ ∃ mid, Laid low first mid ∧ Laid mid second high := by
  induction first generalizing low with
  | nil =>
    constructor
    · intro laid
      exact ⟨low, Nat.le_refl low, laid⟩
    · rintro ⟨mid, pre, laid⟩
      cases second with
      | nil => exact Nat.le_trans pre laid
      | cons token rest => exact ⟨Nat.le_trans pre laid.1, laid.2⟩
  | cons token rest ih =>
    simp only [cons_append, Laid, ih]
    constructor
    · rintro ⟨starts, notEmpty, mid, laid⟩
      exact ⟨mid, ⟨starts, notEmpty, laid.1⟩, laid.2⟩
    · rintro ⟨mid, ⟨starts, notEmpty, laid⟩, more⟩
      exact ⟨starts, notEmpty, mid, laid, more⟩

theorem Laid.le (laid : Laid low toks high) : low ≤ high := by
  induction toks generalizing low with
  | nil => exact laid
  | cons token rest ih =>
    obtain ⟨starts, notEmpty, laid⟩ := laid
    have := ih laid
    omega

theorem Laid.endOf_stop {prev : Span} (laid : Laid prev.stop toks high) :
    prev.stop ≤ (endOf prev toks).stop ∧ (endOf prev toks).stop ≤ high := by
  induction toks generalizing prev with
  | nil => exact ⟨Nat.le_refl _, laid⟩
  | cons token rest ih =>
    obtain ⟨starts, notEmpty, laid⟩ := laid
    have := ih laid
    rw [Parser.endOf_cons]
    omega

@[simp]
theorem start_upTo (span : Span) (offset : Nat) : (span.upTo offset).start = span.start := rfl

theorem stop_upTo {span : Span} (post : span.start ≤ offset) :
    (span.upTo offset).stop = offset := by
  simp only [Span.upTo, Span.stop]
  omega

@[simp]
theorem upTo_stop (span : Span) : span.upTo span.stop = span := by
  simp [Span.upTo, Span.stop]

theorem spanOver_singleton : spanOver [token] = token.span := upTo_stop token.span

theorem Laid.spanOver {low high : Nat} (laid : Laid low toks high) (notEmpty : toks ≠ []) :
    low ≤ (spanOver toks).start ∧ (spanOver toks).start < (spanOver toks).stop ∧
      (spanOver toks).stop ≤ high := by
  obtain ⟨first, rest, rfl⟩ := exists_cons_of_ne_nil notEmpty
  obtain ⟨starts, hasLength, laid⟩ := laid
  have ends := laid.endOf_stop
  have isStop : (Parser.spanOver (first :: rest)).stop = (endOf first.span rest).stop :=
    stop_upTo (by omega)
  rw [isStop]
  exact ⟨starts, Nat.lt_of_lt_of_le hasLength ends.1, ends.2⟩

theorem Laid.tight {low high : Nat} (laid : Laid low toks high) (notEmpty : toks ≠ []) :
    Laid (Parser.spanOver toks).start toks (Parser.spanOver toks).stop := by
  have upToLast : ∀ {rest : List Token} {prev : Span}, Laid prev.stop rest high →
      Laid prev.stop rest (endOf prev rest).stop := by
    intro rest
    induction rest with
    | nil => exact fun _ => Nat.le_refl _
    | cons token rest ih => exact fun laid => ⟨laid.1, laid.2.1, ih laid.2.2⟩
  obtain ⟨first, rest, rfl⟩ := exists_cons_of_ne_nil notEmpty
  obtain ⟨-, hasLength, laid⟩ := laid
  have ends := laid.endOf_stop
  rw [Parser.spanOver, stop_upTo (by omega)]
  exact ⟨Nat.le_refl _, hasLength, upToLast laid⟩

theorem Laid.cover {first gap second : List Token} (laid : Laid low (first ++ (gap ++ second)) high)
    (hasFirst : first ≠ []) (hasSecond : second ≠ []) :
    (Parser.spanOver first).cover (Parser.spanOver second) =
      Parser.spanOver (first ++ (gap ++ second)) := by
  obtain ⟨mid, laidFirst, laidRest⟩ := laid_append.mp laid
  obtain ⟨next, laidGap, laidSecond⟩ := laid_append.mp laidRest
  have ofFirst := laidFirst.spanOver hasFirst
  have ofSecond := laidSecond.spanOver hasSecond
  have := laidGap.le
  rw [Span.cover, if_neg (by omega), Nat.max_eq_right (by omega)]
  obtain ⟨head, front, rfl⟩ := exists_cons_of_ne_nil hasFirst
  obtain ⟨other, back, rfl⟩ := exists_cons_of_ne_nil hasSecond
  obtain ⟨-, hasLength, laidBack⟩ := laidSecond
  have ends := laidBack.endOf_stop
  have isStop : (Parser.spanOver (other :: back)).stop = (endOf other.span back).stop :=
    stop_upTo (by omega)
  rw [isStop]
  simp [Parser.spanOver, Span.upTo]

/-- Different spans, none of them empty, that lie between two offsets. -/
structure Apart (low high : Nat) (spans : List Span) : Prop where
  inside : ∀ span ∈ spans, low ≤ span.start ∧ span.start < span.stop ∧ span.stop ≤ high
  distinct : spans.Nodup

namespace Apart

variable {low high : Nat}

theorem nil : Apart low high [] := ⟨forall_mem_nil _, nodup_nil⟩

theorem widen (apart : Apart low high first) (below : lower ≤ low)
    (above : high ≤ higher) : Apart lower higher first where
  inside span isIn := by
    have := apart.inside span isIn
    omega
  distinct := apart.distinct

theorem append (apart : Apart low mid first) (others : Apart mid high second)
    (below : low ≤ mid) (above : mid ≤ high) : Apart low high (first ++ second) where
  inside := by
    refine forall_mem_append.mpr
      ⟨(apart.widen (Nat.le_refl _) above).inside, (others.widen below (Nat.le_refl _)).inside⟩
  distinct := by
    refine nodup_append.mpr ⟨apart.distinct, others.distinct, ?_⟩
    rintro span isFirst _ isSecond rfl
    have := apart.inside span isFirst
    have := others.inside span isSecond
    omega

theorem left (apart : Apart low high (first ++ second)) : Apart low high first where
  inside := (forall_mem_append.mp apart.inside).1
  distinct := (nodup_append.mp apart.distinct).1

theorem concat (apart : Apart low high first)
    (inside : low ≤ last.start ∧ last.start < last.stop ∧ last.stop ≤ high)
    (fresh : last ∉ first) : Apart low high (first ++ [last]) where
  inside := forall_mem_append.mpr ⟨apart.inside, forall_mem_singleton.mpr inside⟩
  distinct := by
    refine nodup_append.mpr ⟨apart.distinct, by simp, fun span isFirst _ isLast same => ?_⟩
    rw [mem_singleton.mp isLast] at same
    exact fresh (same ▸ isFirst)

theorem notMem_of_start (apart : Apart low high first) (pre : other.start < low) :
    other ∉ first := by
  intro isIn
  have := apart.inside other isIn
  omega

theorem notMem_of_stop (apart : Apart low high first) (post : high < other.stop) :
    other ∉ first := by
  intro isIn
  have := apart.inside other isIn
  omega

end Apart

abbrev spans (trees : List Expr) : List Span := trees.map Expr.span

/-- Wherever the tokens lie, the expressions are between them and have different spans. -/
def Spaced (toks : List Token) (trees : List Expr) : Prop :=
  ∀ low high, Laid low toks high → Apart low high (spans trees)

namespace Spaced

variable {trees : List Expr}

theorem nil (toks : List Token) : Spaced toks [] := fun _ _ _ => .nil

theorem append (spaced : Spaced first trees) (more : Spaced second others) :
    Spaced (first ++ second) (trees ++ others) := by
  intro low high laid
  obtain ⟨mid, laidFirst, laidSecond⟩ := laid_append.mp laid
  rw [spans, map_append]
  exact (spaced _ _ laidFirst).append (more _ _ laidSecond) laidFirst.le laidSecond.le

theorem cons (spaced : Spaced first trees) : Spaced (token :: first) trees :=
  append (nil [token]) spaced

theorem snoc (spaced : Spaced first trees) : Spaced (first ++ [token]) trees := by
  have whole := append spaced (nil [token])
  rwa [append_nil] at whole

theorem left (spaced : Spaced first (trees ++ others)) : Spaced first trees := by
  intro low high laid
  have apart := spaced low high laid
  rw [spans, map_append] at apart
  exact apart.left

end Spaced

/-- The expression spans the tokens, and what is inside of it spans less. -/
structure Spread (toks : List Token) (tree : Expr) : Prop where
  span : tree.span = spanOver toks
  hasLength : tree.span.start < tree.span.stop
  parts : Apart tree.span.start tree.span.stop (spans tree.parts)
  root : tree.span ∉ spans tree.parts

namespace Spread

variable {low high : Nat} {toks : List Token} {tree : Expr}

theorem nodes (spread : Spread toks tree) :
    Apart tree.span.start tree.span.stop (spans tree.nodes) := by
  rw [Expr.nodes, spans, map_append]
  exact spread.parts.concat ⟨Nat.le_refl _, spread.hasLength, Nat.le_refl _⟩ spread.root

theorem spaced (spread : ∀ low high, Laid low toks high → Spread toks tree)
    (notEmpty : toks ≠ []) : Spaced toks tree.nodes := by
  intro low high laid
  have between := laid.spanOver notEmpty
  rw [← (spread low high laid).span] at between
  exact (spread low high laid).nodes.widen between.1 between.2.2

theorem proper (laid : Laid low (front ++ (inside ++ back)) high)
    (isSpan : tree.span = spanOver (front ++ (inside ++ back))) (isProper : front ≠ [] ∨ back ≠ [])
    (parts : Spaced inside tree.parts) : Spread (front ++ (inside ++ back)) tree := by
  have notEmpty : front ++ (inside ++ back) ≠ [] := by
    rcases isProper with hasFront | hasBack
    · simp [hasFront]
    · simp [hasBack]
  have between := laid.spanOver notEmpty
  obtain ⟨mid, laidFront, laidRest⟩ := laid_append.mp (laid.tight notEmpty)
  obtain ⟨next, laidInside, laidBack⟩ := laid_append.mp laidRest
  have ofParts := parts _ _ laidInside
  refine ⟨isSpan, ?_, ?_, ?_⟩ <;> rw [isSpan]
  · exact between.2.1
  · exact ofParts.widen laidFront.le laidBack.le
  · rcases isProper with hasFront | hasBack
    · have := laidFront.spanOver hasFront
      exact ofParts.notMem_of_start (by omega)
    · have := laidBack.spanOver hasBack
      exact ofParts.notMem_of_stop (by omega)

theorem binary {mark : Token}
    (laid : Laid low (first ++ mark :: second) high) (hasFirst : first ≠ [])
    (hasSecond : second ≠ []) (onLeft : Spread first left) (onRight : Spread second right) :
    Spread (first ++ mark :: second) (.binary (left.span.cover right.span) op left right) := by
  have isSpan : left.span.cover right.span = spanOver (first ++ mark :: second) := by
    rw [onLeft.span, onRight.span]
    exact @Laid.cover _ _ first [mark] second laid hasFirst hasSecond
  have between := laid.spanOver (by simp)
  obtain ⟨mid, laidFirst, marks, hasLength, laidSecond⟩ := laid_append.mp (laid.tight (by simp))
  have ofFirst := laidFirst.spanOver hasFirst
  have ofSecond := laidSecond.spanOver hasSecond
  rw [← onLeft.span] at ofFirst
  rw [← onRight.span] at ofSecond
  have ofParts := (onLeft.nodes.widen ofFirst.1 ofFirst.2.2).append
    (onRight.nodes.widen (by omega) ofSecond.2.2) (by omega) (by omega)
  refine ⟨isSpan, ?_, ?_, ?_⟩ <;> rw [Expr.span, isSpan]
  · exact between.2.1
  · rwa [Expr.parts_binary, spans, map_append]
  · rw [Expr.parts_binary, spans, map_append, mem_append]
    rintro (isLeft | isRight)
    · exact onLeft.nodes.notMem_of_stop (by omega) isLeft
    · exact onRight.nodes.notMem_of_start (by omega) isRight

end Spread

def Phrase.Spread (toks : List Token) : Phrase → Prop
  | .expression _ tree => ∀ low high, Laid low toks high → Grammar.Spread toks tree
  | .arguments trees => Spaced toks (Expr.allNodes trees)

theorem Writes.spread {phrase : Phrase} (writes : Writes toks phrase) : phrase.Spread toks := by
  induction writes with
  | @integer token | @real token | @boolean token | @name token =>
    exact fun _ _ laid => @Spread.proper _ _ _ [] [] [token] laid spanOver_singleton.symm
      (.inr (cons_ne_nil _ _)) (.nil _)
  | @call routine opening closing _ _ _ _ _ _ ih =>
    exact fun _ _ laid => @Spread.proper _ _ _ [routine, opening] _ [closing] laid
      (by simp [Expr.span, spanOver]) (.inl (cons_ne_nil _ _)) ih
  | @parenthesized opening closing _ tree _ inner _ ih =>
    intro low high laid
    refine @Spread.proper _ _ _ [opening] _ [closing] laid (by simp [spanOver])
      (.inl (cons_ne_nil _ _)) ?_
    rw [Expr.parts_withSpan]
    exact (Spread.spaced ih (ne_nil_of_begins inner.begins)).left
  | @field _ _ dot name selects _ _ ih =>
    exact fun _ _ laid => @Spread.proper _ _ _ [] _ [dot, name] laid rfl
      (.inr (cons_ne_nil _ _)) (Spread.spaced ih (ne_nil_of_begins selects.begins))
  | @index _ _ _ _ opening closing selects _ inner _ ofRecv ofPos =>
    intro low high laid
    refine @Spread.proper _ _ _ [] _ [closing] laid rfl (.inr (cons_ne_nil _ _)) ?_
    rw [Expr.parts_index]
    exact (Spread.spaced ofRecv (ne_nil_of_begins selects.begins)).append
      (.cons (Spread.spaced ofPos (ne_nil_of_begins inner.begins)))
  | @unary sign op toks operand _ inner ih =>
    intro low high laid
    have notEmpty := ne_nil_of_begins inner.begins
    have isSpan := @Laid.cover _ _ [sign] [] _ laid (cons_ne_nil _ _) notEmpty
    rw [spanOver_singleton, ← (ih _ _ laid.2.2).span] at isSpan
    have spread := @Spread.proper low high (.unary (sign.span.cover operand.span) op operand)
      [sign] toks []
    rw [append_nil] at spread
    exact spread laid isSpan (.inl (cons_ne_nil _ _)) (Spread.spaced ih notEmpty)
  | binary onLeft _ onRight ofLeft ofRight =>
    intro low high laid
    obtain ⟨mid, laidFirst, -, -, laidSecond⟩ := laid_append.mp laid
    exact .binary laid (ne_nil_of_begins onLeft.begins) (ne_nil_of_begins onRight.begins)
      (ofLeft _ _ laidFirst) (ofRight _ _ laidSecond)
  | tighter _ _ ih => exact ih
  | noArguments => exact .nil _
  | lastArgument inner ih => exact Spread.spaced ih (ne_nil_of_begins inner.begins)
  | argument inner _ _ ofFirst ofOthers =>
    rw [Phrase.Spread, Expr.allNodes_cons]
    exact (Spread.spaced ofFirst (ne_nil_of_begins inner.begins)).append (.cons ofOthers)

end Imperative.Grammar

namespace Imperative

open Grammar in
theorem Parser.Feed.ofCursor_laid :
    Laid cur.position (Feed.ofCursor cur).tokens (Feed.ofCursor cur).closing.start := by
  induction cur using Feed.ofCursor.induct with
  | case1 cur atEnd =>
    obtain ⟨gap, lexeme, -, tile, -⟩ := Token.scan_tile
    rw [Feed.ofCursor, if_pos atEnd, tile.start]
    exact Nat.le_add_right _ _
  | case2 cur notAtEnd ih =>
    rw [Feed.ofCursor, if_neg notAtEnd]
    obtain ⟨gap, lexeme, -, tile, ends, -⟩ := Token.scan_tile
    have hasLength := Text.byteLength_pos (mt tile.atEnd.mpr notAtEnd)
    rw [← tile.length] at hasLength
    refine ⟨?_, Nat.lt_add_of_pos_right hasLength, ends ▸ ih⟩
    rw [tile.start]
    exact Nat.le_add_right _ _

end Imperative
