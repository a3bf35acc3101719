import Imperative.Parser.Program
import Imperative.Proofs.Parser.Steps

/-!
# Runs without a diagnostic

Rules for both directions: `Takes` says what the consumed tokens are if nothing is reported, and
`Reads` says what a parser does with tokens that are given.
-/

namespace Imperative.Parser

open Token (Kind)

variable {kind : Kind} {toks : List Token} {token : Token}

variable {α β : Type}

/-- The span of the last of some tokens, or of the one before them if there are none. -/
def endOf (previous : Span) : List Token → Span
  | [] => previous
  | token :: rest => endOf token.span rest

@[simp]
theorem endOf_nil : endOf previous [] = previous := rfl

@[simp]
theorem endOf_cons : endOf previous (token :: rest) = endOf token.span rest := rfl

@[simp]
theorem endOf_append (previous : Span) (first second : List Token) :
    endOf previous (first ++ second) = endOf (endOf previous first) second := by
  induction first generalizing previous with
  | nil => rfl
  | cons token rest ih => exact ih token.span

/-- From the first of the tokens to the end of the last. -/
def spanOver : List Token → Span
  | [] => default
  | first :: rest => first.span.upTo (endOf first.span rest).stop

/-- The second state has the tokens of the first without the given ones in front. -/
structure State.Consumes (before : State) (toks : List Token) (post : State) : Prop where
  rest : before.rest = toks ++ post.rest
  closing : post.closing = before.closing
  previous : post.previous = endOf before.previous toks

namespace State

theorem Consumes.refl (st : State) : st.Consumes [] st := ⟨rfl, rfl, rfl⟩

theorem Consumes.trans {first second : State} (before : first.Consumes front second)
    (post : second.Consumes back third) : first.Consumes (front ++ back) third where
  rest := by rw [before.rest, post.rest, List.append_assoc]
  closing := post.closing.trans before.closing
  previous := by rw [post.previous, before.previous, endOf_append]

@[grind →]
theorem Consumes.length {before post : State} (consumes : before.Consumes toks post) :
    before.rest.length = toks.length + post.rest.length := by
  rw [consumes.rest, List.length_append]

theorem Consumes.length_one {before post : State} (consumes : before.Consumes [token] post) :
    before.rest.length = post.rest.length + 1 := by
  rw [consumes.rest, List.cons_append, List.nil_append, List.length_cons]

theorem rest_of_current {st : State} (notAtEnd : st.current.kind ≠ .endOfFile) :
    st.rest = st.current :: st.rest.tail := by
  cases remaining : st.rest with
  | nil =>
    rw [current, remaining] at notAtEnd
    exact absurd rfl notAtEnd
  | cons first rest => simp [current, remaining]

theorem rest_eq_nil_of_end {st : State} (inside : ∀ token ∈ st.rest, token.kind ≠ .endOfFile)
    (atEnd : st.current.kind = .endOfFile) : st.rest = [] := by
  cases remaining : st.rest with
  | nil => rfl
  | cons first rest =>
    rw [current, remaining] at atEnd
    exact absurd atEnd (inside first (by simp [remaining]))

theorem advance_takes {st : State} (notAtEnd : st.current.kind ≠ .endOfFile)
    (clean : st.advance.diagnostics = []) : st.Consumes [st.current] st.advance := by
  have noErrors := List.map_eq_nil_iff.mp (List.append_eq_nil_iff.mp clean).2
  have isRest : st.rest.tail.dropWhile (fun token => token.kind = .error) = st.rest.tail := by
    have parts := st.rest.tail.takeWhile_append_dropWhile (p := fun token => token.kind = .error)
    rwa [noErrors, List.nil_append] at parts
  refine ⟨?_, rfl, rfl⟩
  rw [rest_of_current notAtEnd]
  exact congrArg (st.current :: ·) isRest.symm

end State

theorem bind_eq (step : parser st = (val, post)) {next : α → Parser β} :
    (parser >>= next) st = next val post := by
  have isBind : (parser >>= next) st = next (parser st).1 (parser st).2 := rfl
  rw [isBind, step]

theorem accept_eq :
    accept kind st = if st.current.kind = kind then (true, st.advance) else (false, st) := by
  have isChoice : accept kind st =
      (if decide (st.current.kind = kind) = true then
        (do advance; return true) else (return false) : Parser Bool) st := rfl
  rw [isChoice]
  by_cases found : st.current.kind = kind
  · rw [if_pos found, if_pos (decide_eq_true found)]
    rfl
  · rw [if_neg found, if_neg (by simpa using found)]
    rfl

theorem demand_eq :
    demand kind wanted st = if st.current.kind = kind then (st.current.text, st.advance)
      else (none, st.report st.current.span (.missing wanted st.current.kind)) := by
  have isChoice : demand kind wanted st =
      (if st.current.kind = kind then (do advance; return st.current.text)
        else (do report (.missing wanted st.current.kind); return none) :
          Parser (Option String)) st := rfl
  rw [isChoice]
  split <;> rfl

/-- Unless something is reported, the parser consumes tokens that have the property. -/
def Takes (parser : Parser α) (st : State) (property : List Token → α → State → Prop) : Prop :=
  (parser st).2.diagnostics = [] →
    ∃ toks, st.Consumes toks (parser st).2 ∧ property toks (parser st).1 (parser st).2

namespace Takes

variable {parser : Parser α}

theorem imp (takes : Takes parser st first)
    (implies : ∀ toks val post, first toks val post → second toks val post) :
    Takes parser st second := by
  intro clean
  obtain ⟨toks, consumes, holds⟩ := takes clean
  exact ⟨toks, consumes, implies _ _ _ holds⟩

theorem pure (holds : property [] val st) : Takes (Pure.pure val) st property :=
  fun _ => ⟨[], .refl st, holds⟩

theorem bind [steady : ∀ val, Steady (next val)] (takes : Takes parser st first)
    (nextTakes : ∀ toks val post, st.Consumes toks post → first toks val post →
      Takes (next val) post fun more res last => whole (toks ++ more) res last) :
    Takes (parser >>= next) st whole := by
  intro clean
  have midClean := ((steady (parser st).1).passes (parser st).2).clean clean
  obtain ⟨toks, consumes, holds⟩ := takes midClean
  obtain ⟨more, consumesMore, wholeHolds⟩ := nextTakes _ _ _ consumes holds clean
  exact ⟨toks ++ more, consumes.trans consumesMore, wholeHolds⟩

theorem map (takes : Takes parser st fun toks val post => property toks (transform val) post) :
    Takes (transform <$> parser) st property := takes

theorem of_report : Takes (report mistake) st property :=
  fun clean => absurd clean (List.append_ne_nil_of_right_ne_nil _ (List.cons_ne_nil _ _))

theorem current
    (takes : Takes (next st.current) st property) : Takes (Parser.current >>= next) st property :=
  takes

theorem check (takes : Takes (next (st.current.kind = kind)) st property) :
    Takes (Parser.check kind >>= next) st property := takes

theorem spanFrom (takes : Takes (next (opening.upTo st.previous.stop)) st property) :
    Takes (Parser.spanFrom opening >>= next) st property := takes

theorem advance [∀ val, Steady (next val)] (notAtEnd : st.current.kind ≠ .endOfFile)
    (takes : ∀ post, st.Consumes [st.current] post →
      Takes (next ()) post fun more => property (st.current :: more)) :
    Takes (Parser.advance >>= next) st property := by
  have one : Takes .advance st fun toks _ _ => toks = [st.current] :=
    fun clean => ⟨_, State.advance_takes notAtEnd clean, rfl⟩
  apply one.bind
  rintro _ _ post consumes rfl
  exact takes post consumes

/-- A step that consumes the current token, as `advance` does, and gives a value. -/
theorem advances [∀ val, Steady (next val)] (step : parser st = (val, st.advance))
    (notAtEnd : st.current.kind ≠ .endOfFile)
    (takes : ∀ post, st.Consumes [st.current] post →
      Takes (next val) post fun more => property (st.current :: more)) :
    Takes (parser >>= next) st property := by
  have advanced : Takes (.advance >>= fun _ => next val) st property := advance notAtEnd takes
  intro clean
  rw [bind_eq step] at clean ⊢
  exact advanced clean

theorem accept [∀ found, Steady (next found)] (notEnd : kind ≠ .endOfFile)
    (ifFound : st.current.kind = kind → ∀ post, st.Consumes [st.current] post →
      Takes (next true) post fun more => property (st.current :: more))
    (ifNot : st.current.kind ≠ kind → Takes (next false) st property) :
    Takes (Parser.accept kind >>= next) st property := by
  by_cases found : st.current.kind = kind
  · exact advances (accept_eq.trans (if_pos found)) (found ▸ notEnd) (ifFound found)
  · intro clean
    rw [bind_eq (accept_eq.trans (if_neg found))] at clean ⊢
    exact ifNot found clean

theorem demand [steady : ∀ text, Steady (next text)] (notEnd : kind ≠ .endOfFile)
    (takes : st.current.kind = kind → ∀ post, st.Consumes [st.current] post →
      Takes (next st.current.text) post fun more => property (st.current :: more)) :
    Takes (Parser.demand kind wanted >>= next) st property := by
  by_cases found : st.current.kind = kind
  · exact advances (demand_eq.trans (if_pos found)) (found ▸ notEnd) (takes found)
  · intro clean
    rw [bind_eq (demand_eq.trans (if_neg found))] at clean
    have reported := ((steady none).passes _).clean clean
    exact absurd reported (List.append_ne_nil_of_right_ne_nil _ (List.cons_ne_nil _ _))

theorem expect [∀ val, Steady (next val)] (notEnd : kind ≠ .endOfFile)
    (takes : st.current.kind = kind → ∀ post, st.Consumes [st.current] post →
      Takes (next ()) post fun more => property (st.current :: more)) :
    Takes (Parser.expect kind >>= next) st property := by
  have step : Takes (.demand kind (.token kind) >>= fun _ => next ()) st property :=
    demand notEnd takes
  exact step

theorem expectName [∀ name, Steady (next name)]
    (takes : st.current.kind = .identifier → ∀ post, st.Consumes [st.current] post →
      Takes (next (st.current.text.getD missingName)) post
        fun more => property (st.current :: more)) :
    Takes (Parser.expectName thing >>= next) st property := by
  have step : Takes (.demand .identifier (.nameOf thing) >>= fun text =>
      next (text.getD missingName)) st property := demand (by decide) takes
  exact step

end Takes

def Separators (toks : List Token) : Prop := ∀ token ∈ toks, token.kind.isSeparator = true

theorem notEnd_of_isSeparator (separates : kind.isSeparator = true) : kind ≠ .endOfFile := by
  rintro rfl
  cases separates

theorem State.advanceWhile_takes (st : State) (enough : st.rest.length ≤ count)
    (clean : (st.advanceWhile Kind.isSeparator count).diagnostics = []) :
    ∃ toks, st.Consumes toks (st.advanceWhile Kind.isSeparator count) ∧ Separators toks ∧
      (st.advanceWhile Kind.isSeparator count).current.kind.isSeparator = false := by
  induction count generalizing st with
  | zero =>
    have isEnd : st.current = .bare .endOfFile st.closing := by
      rw [current, List.length_eq_zero_iff.mp (Nat.le_zero.mp enough)]
      rfl
    refine ⟨[], .refl st, by simp [Separators], ?_⟩
    rw [advanceWhile, isEnd]
    rfl
  | succ count ih =>
    rw [advanceWhile] at clean ⊢
    by_cases separates : st.current.kind.isSeparator = true
    · rw [if_pos separates] at clean ⊢
      have notAtEnd := notEnd_of_isSeparator separates
      have consumes := advance_takes notAtEnd ((advanceWhile_follows count st.advance).clean clean)
      have fewer := consumes.length_one
      obtain ⟨toks, consumesMore, separators, stops⟩ := ih st.advance (by omega) clean
      exact ⟨_, consumes.trans consumesMore, List.forall_mem_cons.mpr ⟨separates, separators⟩,
        stops⟩
    · rw [if_neg separates] at clean ⊢
      exact ⟨[], .refl st, by simp [Separators], by simpa using separates⟩

theorem Takes.skipSeparators [∀ val, Steady (next val)]
    (takes : ∀ toks post, st.Consumes toks post → Separators toks →
      post.current.kind.isSeparator = false →
      Takes (next ()) post fun more => property (toks ++ more)) :
    Takes (Parser.skipSeparators >>= next) st property := by
  have skips : Takes .skipSeparators st fun toks _ post =>
      Separators toks ∧ post.current.kind.isSeparator = false :=
    st.advanceWhile_takes (Nat.le_refl _)
  apply skips.bind
  rintro toks _ post consumes ⟨separators, stops⟩
  exact takes toks post consumes separators stops

/-- The kind of the first of some tokens; after the last one it is the end of the text. -/
def nextKind (toks : List Token) : Kind := (toks.head?.map Token.kind).getD .endOfFile

@[simp]
theorem nextKind_cons : nextKind (token :: rest) = token.kind :=
  rfl

def Errorless (toks : List Token) : Prop := ∀ token ∈ toks, token.kind ≠ .error

@[simp]
theorem errorless_cons : Errorless (token :: rest) ↔ token.kind ≠ .error ∧ Errorless rest :=
  List.forall_mem_cons

@[simp]
theorem errorless_append : Errorless (first ++ second) ↔ Errorless first ∧ Errorless second :=
  List.forall_mem_append

theorem Errorless.nextKind_append (errorless : Errorless toks) (notErr : nextKind rest ≠ .error) :
    nextKind (toks ++ rest) ≠ .error := by
  cases toks with
  | nil => exact notErr
  | cons token others => exact (errorless_cons.mp errorless).1

theorem errorless_of_separators (separators : Separators toks) : Errorless toks := by
  intro token isIn isError
  have separates := separators token isIn
  rw [isError] at separates
  cases separates

def State.clean (closing previous : Span) (rest : List Token) : State :=
  { rest, closing, previous, diagnostics := [] }

section Clean

variable {closing previous : Span} {rest : List Token}

@[simp]
theorem State.current_clean_cons : (State.clean closing previous (token :: rest)).current = token :=
  rfl

@[simp]
theorem State.kind_current_clean :
    (State.clean closing previous rest).current.kind = nextKind rest := by
  cases rest <;> rfl

@[simp]
theorem State.advance_clean (notErr : nextKind rest ≠ .error) :
    (State.clean closing previous (token :: rest)).advance = .clean closing token.span rest := by
  cases rest with
  | nil => rfl
  | cons next rest =>
    rw [nextKind_cons] at notErr
    simp [State.advance, State.settle, State.clean, State.current, notErr]

theorem map_eq {parser : Parser α} (step : parser st = (val, post)) :
    (transform <$> parser) st = (transform val, post) := by
  have isMap : (transform <$> parser) st = (transform (parser st).1, (parser st).2) := rfl
  rw [isMap, step]

theorem current_bind : (current >>= next) st = next st.current st := rfl

theorem spanFrom_bind :
    (spanFrom opening >>= next) st = next (opening.upTo st.previous.stop) st := rfl

theorem State.advanceWhile_clean (separators : Separators toks) (notErr : nextKind rest ≠ .error)
    (stops : (nextKind rest).isSeparator = false) (enough : toks.length ≤ count) :
    (State.clean closing previous (toks ++ rest)).advanceWhile Kind.isSeparator count =
      .clean closing (endOf previous toks) rest := by
  induction toks generalizing previous count with
  | nil =>
    cases count with
    | zero => rfl
    | succ count => simp [advanceWhile, stops]
  | cons token toks ih =>
    obtain ⟨count, rfl⟩ : ∃ less, count = less + 1 := ⟨count - 1, by simp at enough; omega⟩
    obtain ⟨separates, separators⟩ := List.forall_mem_cons.mp separators
    rw [List.cons_append, advanceWhile, current_clean_cons, if_pos separates,
      advance_clean ((errorless_of_separators separators).nextKind_append notErr)]
    exact ih separators (by simpa using enough)

end Clean

/--
The parser reads the tokens as the value and reports nothing if the kind of the token after them
is as wanted.  The token before them is at `previous`.
-/
def Reads (previous : Span) (parser : Parser α) (toks : List Token) (val : α)
    (ends : Kind → Prop) : Prop :=
  ∀ (closing : Span) (rest : List Token), Errorless toks → nextKind rest ≠ .error →
    ends (nextKind rest) →
    parser (.clean closing previous (toks ++ rest)) =
      (val, .clean closing (endOf previous toks) rest)

theorem reads_skipSeparators (separators : Separators toks) :
    Reads previous skipSeparators toks () (·.isSeparator = false) := by
  intro closing rest _ notErr stops
  have isSkip : skipSeparators (.clean closing previous (toks ++ rest)) =
      ((), (State.clean closing previous (toks ++ rest)).advanceWhile Kind.isSeparator
        (toks ++ rest).length) := rfl
  rw [isSkip, State.advanceWhile_clean separators notErr stops (by simp)]

namespace Reads

variable {next : α → Parser β}
theorem pure : Reads previous (Pure.pure val) [] val ends := fun _ _ _ _ _ => rfl

theorem imp (reads : Reads previous parser toks val wanted)
    (implies : ∀ kind, ends kind → wanted kind) : Reads previous parser toks val ends :=
  fun closing rest errorless notErr holds => reads closing rest errorless notErr (implies _ holds)

theorem bind (first : Reads previous parser toks val wanted)
    (others : Reads (endOf previous toks) (next val) more res ends)
    (meets : ∀ rest, ends (nextKind rest) → wanted (nextKind (more ++ rest))) :
    Reads previous (parser >>= next) (toks ++ more) res ends := by
  intro closing rest errorless notErr holds
  obtain ⟨errorlessFirst, errorlessMore⟩ := errorless_append.mp errorless
  have isFirst := first closing _ errorlessFirst (errorlessMore.nextKind_append notErr)
    (meets rest holds)
  rw [List.append_assoc, bind_eq isFirst, endOf_append]
  exact others closing rest errorlessMore notErr holds

theorem before (first : Reads previous parser toks val wanted) (isWanted : wanted token.kind)
    (others : Reads (endOf previous toks) (next val) (token :: more) res ends) :
    Reads previous (parser >>= next) (toks ++ token :: more) res ends :=
  first.bind others fun _ _ => isWanted

theorem last (first : Reads previous parser toks val wanted)
    (implies : ∀ kind, ends kind → wanted kind)
    (others : Reads (endOf previous toks) (next val) [] res ends) :
    Reads previous (parser >>= next) toks res ends := by
  have both := first.bind others fun rest => implies (nextKind rest)
  rwa [List.append_nil] at both

theorem assoc {last : β → Parser γ} {res : γ}
    (reads : Reads previous (parser >>= fun val => next val >>= last) toks res ends) :
    Reads previous (parser >>= next >>= last) toks res ends := by
  rwa [bind_assoc]

theorem ite {cond : Prop} [Decidable cond]
    (reads : Reads previous ((if cond then parser else other) >>= next) toks res ends) :
    Reads previous (if cond then parser >>= next else other >>= next) toks res ends := by
  by_cases holds : cond
  · rw [if_pos holds] at reads ⊢
    exact reads
  · rw [if_neg holds] at reads ⊢
    exact reads

theorem one
    (step : ∀ closing rest, nextKind rest ≠ .error →
      parser (.clean closing previous (token :: rest)) = (val, .clean closing token.span rest))
    (others : Reads token.span (next val) more res ends) :
    Reads previous (parser >>= next) (token :: more) res ends :=
  have first : Reads previous parser [token] val fun _ => True :=
    fun closing rest _ notErr _ => step closing rest notErr
  first.bind others fun _ _ => trivial

theorem map (reads : Reads previous parser toks val ends) :
    Reads previous (transform <$> parser) toks (transform val) ends :=
  fun closing rest errorless notErr holds => map_eq (reads closing rest errorless notErr holds)

theorem spanFrom {next : Span → Parser β}
    (others : Reads previous (next (opening.upTo previous.stop)) more res ends) :
    Reads previous (Parser.spanFrom opening >>= next) more res ends := others

theorem current {next : Token → Parser β}
    (others : Reads previous (next token) (token :: more) res ends) :
    Reads previous (Parser.current >>= next) (token :: more) res ends := others

theorem first {next : Token → Parser β} (isFirst : more.head? = some token)
    (others : Reads previous (next token) more res ends) :
    Reads previous (Parser.current >>= next) more res ends := by
  cases more with
  | nil => cases isFirst
  | cons =>
    cases isFirst
    exact others

/-- Of the next token, which may come after those that are read, only the kind is known. -/
theorem peek {next : Token → Parser β} (property : Kind → Prop)
    (meets : ∀ rest, ends (nextKind rest) → property (nextKind (more ++ rest)))
    (others : ∀ token, property token.kind → Reads previous (next token) more res ends) :
    Reads previous (Parser.current >>= next) more res ends := by
  intro closing rest errorless notErr holds
  have known := meets rest holds
  rw [← State.kind_current_clean] at known
  exact others _ known closing rest errorless notErr holds

theorem atEnd {next : Token → Parser β}
    (others : ∀ token, ends token.kind → Reads previous (next token) [] res ends) :
    Reads previous (Parser.current >>= next) [] res ends := peek ends (fun _ holds => holds) others

theorem check {next : Bool → Parser β}
    (isKind : ∀ rest, ends (nextKind rest) → nextKind (more ++ rest) = kind)
    (others : Reads previous (next true) more res ends) :
    Reads previous (Parser.check kind >>= next) more res ends := by
  have checks : Reads previous (.current >>= fun token => next (token.kind = kind)) more
      res ends := by
    refine peek (· = kind) isKind fun token found => ?_
    rwa [decide_eq_true found]
  exact checks

theorem checkNot {next : Bool → Parser β}
    (otherKind : ∀ rest, ends (nextKind rest) → nextKind (more ++ rest) ≠ kind)
    (others : Reads previous (next false) more res ends) :
    Reads previous (Parser.check kind >>= next) more res ends := by
  have checks : Reads previous (.current >>= fun token => next (token.kind = kind)) more
      res ends := by
    refine peek (· ≠ kind) otherKind fun token notKind => ?_
    rwa [decide_eq_false notKind]
  exact checks

theorem advance {next : Unit → Parser β} (others : Reads token.span (next ()) more res ends) :
    Reads previous (Parser.advance >>= next) (token :: more) res ends :=
  one (fun _ _ notErr => congrArg (Prod.mk ()) (State.advance_clean notErr)) others

theorem accept {next : Bool → Parser β} (isKind : token.kind = kind)
    (others : Reads token.span (next true) more res ends) :
    Reads previous (Parser.accept kind >>= next) (token :: more) res ends := by
  refine one (fun closing rest notErr => ?_) others
  rw [accept_eq, State.current_clean_cons, if_pos isKind, State.advance_clean notErr]

theorem acceptNot {next : Bool → Parser β}
    (otherKind : ∀ rest, ends (nextKind rest) → nextKind (more ++ rest) ≠ kind)
    (others : Reads previous (next false) more res ends) :
    Reads previous (Parser.accept kind >>= next) more res ends := by
  intro closing rest errorless notErr holds
  rw [← others closing rest errorless notErr holds]
  apply bind_eq
  rw [accept_eq, State.kind_current_clean, if_neg (otherKind rest holds)]

theorem demand {wanted : Wanted} {next : Option String → Parser β} (isKind : token.kind = kind)
    (others : Reads token.span (next token.text) more res ends) :
    Reads previous (Parser.demand kind wanted >>= next) (token :: more) res ends := by
  refine one (fun closing rest notErr => ?_) others
  rw [demand_eq, State.current_clean_cons, if_pos isKind, State.advance_clean notErr]

theorem expect {next : Unit → Parser β} (isKind : token.kind = kind)
    (others : Reads token.span (next ()) more res ends) :
    Reads previous (Parser.expect kind >>= next) (token :: more) res ends := by
  have step : Reads previous (.demand kind (.token kind) >>= fun _ => next ())
      (token :: more) res ends := demand isKind others
  exact step

theorem expectName {next : String → Parser β} (isName : token.kind = .identifier)
    (others : Reads token.span (next (token.text.getD missingName)) more res ends) :
    Reads previous (Parser.expectName thing >>= next) (token :: more) res ends := by
  have step : Reads previous (.demand .identifier (.nameOf thing) >>= fun text =>
      next (text.getD missingName)) (token :: more) res ends := demand isName others
  exact step

theorem skipSeparators {next : Unit → Parser β} (separators : Separators toks)
    (stops : ∀ rest, ends (nextKind rest) → (nextKind (more ++ rest)).isSeparator = false)
    (others : Reads (endOf previous toks) (next ()) more res ends) :
    Reads previous (Parser.skipSeparators >>= next) (toks ++ more) res ends :=
  (reads_skipSeparators separators).bind others stops

end Reads

def startSpan : Span := { start := 0, length := 0, line := 0, column := 0 }

theorem State.ofFeed_eq (notErr : nextKind feed.tokens ≠ .error) :
    State.ofFeed feed = .clean feed.closing startSpan feed.tokens := by
  rw [State.ofFeed, State.settle]
  cases first : feed.tokens with
  | nil => rfl
  | cons token rest =>
    rw [first, nextKind_cons] at notErr
    simp [State.clean, startSpan, notErr]

theorem State.ofFeed_rest (clean : (State.ofFeed feed).diagnostics = []) :
    (State.ofFeed feed).rest = feed.tokens := by
  have noErrors := List.map_eq_nil_iff.mp (List.append_eq_nil_iff.mp clean).2
  have parts := feed.tokens.takeWhile_append_dropWhile (p := fun token => token.kind = .error)
  rwa [noErrors, List.nil_append] at parts

theorem Feed.ofTokens_inside : ∀ token ∈ (Feed.ofTokens toks).tokens, token.kind ≠ .endOfFile := by
  intro token isIn
  simpa using List.all_eq_true.mp List.all_takeWhile token isIn

theorem Feed.ofTokens_append_end {tokens : List Token}
    (inside : ∀ token ∈ tokens, token.kind ≠ .endOfFile) (closing : Span) :
    Feed.ofTokens (tokens ++ [.bare .endOfFile closing]) = { tokens, closing } := by
  have notFound : (tokens.find? fun token => token.kind = .endOfFile) = none :=
    List.find?_eq_none.mpr fun token isIn => by simpa using inside token isIn
  rw [Feed.ofTokens, List.takeWhile_append_of_pos (by simpa using inside), List.find?_append,
    notFound]
  simp [Token.bare]

end Imperative.Parser
