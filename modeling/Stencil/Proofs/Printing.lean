import Stencil.Proofs.Operands

namespace Stencil.Template

open Reader

/-- The operators of a level: how they are read and what they build. -/
structure Tier where
  Operator : Type
  reader : Reader Operator
  build : Operator → Expr → Expr → Expr

def tier : Nat → Tier
  | 0 => { Operator := LogicalOperator, reader := orOperator, build := .logical }
  | 1 => { Operator := LogicalOperator, reader := andOperator, build := .logical }
  | 2 => { Operator := ComparisonOperator, reader := comparisonOperator, build := .comparison }
  | 3 => { Operator := ArithmeticOperator, reader := additiveOperator, build := .arithmetic }
  | _ => { Operator := ArithmeticOperator, reader := multiplicativeOperator, build := .arithmetic }

def levelReader (inner : Inner) : Nat → Reader Expr
  | 0 => disjunction inner
  | 1 => conjunction inner
  | 2 => comparison inner
  | 3 => sum inner
  | 4 => product inner
  | _ => unary inner

theorem levelReader_eq_chain (inner : Inner) {level : Nat} (h : level < unaryLevel) :
    levelReader inner level =
      chain (levelReader inner (level + 1)) (tier level).reader (tier level).build := by
  match level, h with
  | 0, _ | 1, _ | 2, _ | 3, _ | 4, _ => rfl

theorem tier_reader_spelling {op : BinaryOperator} {word : String} (hword : word ∈ op.spellings)
    (rest : List Char) :
    ∃ found, (tier op.level).reader (word.toList ++ ' ' :: rest) = .done found (' ' :: rest) ∧
      (tier op.level).build found = op.build := by
  rcases op with (_ | _) | (_ | _ | _ | _ | _ | _) | (_ | _ | _ | _ | _) <;>
    simp [BinaryOperator.spellings, BinaryOperator.word?] at hword <;>
    rcases hword with rfl | rfl <;>
    exact ⟨_, rfl, rfl⟩

theorem misses_tier_spelling {op : BinaryOperator} {word : String} (hword : word ∈ op.spellings)
    {level : Nat} (hbelow : level < unaryLevel) (hlevel : op.level < level) (rest : List Char) :
    Misses (tier level).reader (word.toList ++ ' ' :: rest) := by
  simp only [unaryLevel] at hbelow
  rcases op with (_ | _) | (_ | _ | _ | _ | _ | _) | (_ | _ | _ | _ | _) <;>
    simp [BinaryOperator.spellings, BinaryOperator.word?] at hword <;>
    simp only [BinaryOperator.level] at hlevel <;>
    rcases hword with rfl | rfl <;>
    rcases level with _ | _ | _ | _ | level <;>
    first | omega | exact ⟨_, rfl⟩

theorem misses_tier_nil (level : Nat) : Misses (tier level).reader [] := by
  rcases level with _ | _ | _ | _ | level <;> exact ⟨_, rfl⟩

theorem misses_tier_close (level : Nat) (rest : List Char) :
    Misses (tier level).reader (')' :: rest) := by
  rcases level with _ | _ | _ | _ | level <;> exact ⟨_, rfl⟩

theorem stops_spelling {op : BinaryOperator} {word : String} (hword : word ∈ op.spellings)
    (rest : List Char) : Stops Text.isLayout (word.toList ++ rest) := by
  rcases op with (_ | _) | (_ | _ | _ | _ | _ | _) | (_ | _ | _ | _ | _) <;>
    simp [BinaryOperator.spellings, BinaryOperator.word?] at hword <;>
    rcases hword with rfl | rfl <;>
    exact .cons rfl _

theorem skipLayout_spelling {op : BinaryOperator} {word : String} (hword : word ∈ op.spellings)
    (rest : List Char) :
    skipLayout (' ' :: (word.toList ++ rest)) = word.toList ++ rest :=
  (stops_spelling hword rest).dropWhile_eq

/-- What may stand behind an operand of the level: the end, or an operator of a lower level. -/
inductive Follows (level : Nat) : List Char → Prop where
  | finish : Follows level []
  | close (rest : List Char) : Follows level (')' :: rest)
  | operator {op : BinaryOperator} {word : String} (hlevel : op.level < level)
      (hword : word ∈ op.spellings) (rest : List Char) :
      Follows level (' ' :: (word.toList ++ ' ' :: rest))

namespace Follows

variable {level : Nat} {rest : List Char}

theorem mono (h : Follows level rest) {higher : Nat} (hle : level ≤ higher) :
    Follows higher rest := by
  cases h with
  | finish => exact .finish
  | close rest => exact .close rest
  | operator hlevel hword rest => exact .operator (Nat.lt_of_lt_of_le hlevel hle) hword rest

theorem endsOperand (h : Follows level rest) : EndsOperand rest := by
  cases h with
  | finish => exact .nil
  | close rest => exact .cons rfl rest
  | operator _ _ rest => exact .cons rfl _

theorem misses_tier (h : Follows level rest) (hbelow : level < unaryLevel) :
    Misses (tier level).reader (skipLayout rest) := by
  cases h with
  | finish => exact misses_tier_nil level
  | close rest => exact misses_tier_close level rest
  | operator hlevel hword rest =>
      rw [skipLayout_spelling hword]
      exact misses_tier_spelling hword hbelow hlevel rest

end Follows

section

variable {ω : Type}

def chainStep (operand : Reader Expr) (operator : Reader ω) : Reader (ω × Expr) := do
  let op ← lexeme operator
  let right ← cut operand
  return (op, right)

def assemble (build : ω → Expr → Expr → Expr) (first : Expr) (steps : List (ω × Expr)) : Expr :=
  steps.foldl (fun left (op, right) => build op left right) first

theorem assemble_concat (build : ω → Expr → Expr → Expr) (first right : Expr)
    (steps : List (ω × Expr)) (op : ω) :
    assemble build first (steps ++ [(op, right)]) =
      build op (assemble build first steps) right := by
  simp [assemble]

theorem chain_of_rounds {operand : Reader Expr} {operator : Reader ω}
    (build : ω → Expr → Expr → Expr) {text middle rest : List Char} {first : Expr}
    {steps : List (ω × Expr)} (hfirst : operand text = .done first middle)
    (hsteps : Rounds (chainStep operand operator) middle steps rest)
    (hlength : steps.length ≤ maxOperators) :
    chain operand operator build text = .done (assemble build first steps) rest := by
  refine (bind_of_done hfirst).trans ?_
  refine (bind_of_done hsteps.many_eq).trans ?_
  exact congrFun (if_neg (Nat.not_lt.mpr hlength)) rest

end

section

variable {inner : Inner} {level : Nat} {e : Expr} {text : List Char}

abbrev levelStep (inner : Inner) (level : Nat) : Reader ((tier level).Operator × Expr) :=
  chainStep (levelReader inner (level + 1)) (tier level).reader

/-- The text is read as the expression, whatever may follow an operand of the level. -/
def Reads (inner : Inner) (level : Nat) (e : Expr) (text : List Char) : Prop :=
  ∀ rest, Follows level rest → levelReader inner level (text ++ rest) = .done e (skipLayout rest)

/-- The text is read as the start of a chain of the level, with the given number of operators in
it: the operators behind the text, if they are of the level, go on with the same chain. -/
def Starts (inner : Inner) (level : Nat) (e : Expr) (text : List Char) (count : Nat) : Prop :=
  ∀ rest, Follows (level + 1) rest → ∃ first middle steps,
    levelReader inner (level + 1) (text ++ rest) = .done first middle ∧
      assemble (tier level).build first steps = e ∧ steps.length = count ∧
      ∀ others final, Rounds (levelStep inner level) (skipLayout rest) others final →
        Rounds (levelStep inner level) middle (steps ++ others) final

theorem Starts.reads {count : Nat} (h : Starts inner level e text count)
    (hbelow : level < unaryLevel) (hcount : count ≤ maxOperators) : Reads inner level e text := by
  intro rest hrest
  obtain ⟨first, middle, steps, hfirst, rfl, rfl, hsteps⟩ := h rest (hrest.mono (Nat.le_succ _))
  have hstop : Rounds (levelStep inner level) (skipLayout rest) [] (skipLayout rest) := by
    refine .stop ((misses_lexeme ?_).bind _)
    rw [skipLayout_skipLayout]
    exact hrest.misses_tier hbelow
  have hrounds := hsteps [] _ hstop
  rw [List.append_nil] at hrounds
  rw [levelReader_eq_chain inner hbelow]
  exact chain_of_rounds _ hfirst hrounds hcount

theorem Reads.starts (h : Reads inner (level + 1) e text) : Starts inner level e text 0 := by
  intro rest hrest
  exact ⟨e, skipLayout rest, [], h rest hrest, rfl, rfl, fun _ _ hrounds => hrounds⟩

theorem Reads.descend {higher : Nat} (h : Reads inner higher e text) (hle : level ≤ higher)
    (hunary : higher ≤ unaryLevel) : Reads inner level e text := by
  induction hle with
  | refl => exact h
  | step _ ih => exact ih (h.starts.reads hunary (Nat.zero_le _)) (Nat.le_of_succ_le hunary)

theorem disjunction_of_unary (h : ∀ rest, unary inner (text ++ rest) = .done e (skipLayout rest)) :
    disjunction inner text = .done e [] := by
  have hreads : Reads inner unaryLevel e text := fun rest _ => h rest
  have hread := hreads.descend (Nat.zero_le _) (Nat.le_refl _) [] .finish
  rwa [List.append_nil] at hread

theorem Starts.snoc {left right : Expr} {leftText rightText : List Char} {count : Nat}
    {op : BinaryOperator} {word : String} (hword : word ∈ op.spellings)
    (hleft : Starts inner op.level left leftText count)
    (hright : Reads inner (op.level + 1) right rightText)
    (hfront : ∀ rest, Stops Text.isLayout (rightText ++ rest)) :
    Starts inner op.level (op.build left right)
      (leftText ++ ' ' :: word.toList ++ ' ' :: rightText) (count + 1) := by
  intro rest hrest
  obtain ⟨found, hread, hbuild⟩ := tier_reader_spelling hword (rightText ++ rest)
  have hfollows : Follows (op.level + 1) (' ' :: (word.toList ++ ' ' :: (rightText ++ rest))) :=
    .operator (Nat.lt_succ_self _) hword _
  obtain ⟨first, middle, steps, hfirst, hassemble, hlength, hsteps⟩ := hleft _ hfollows
  refine ⟨first, middle, steps ++ [(found, right)], ?_, ?_, ?_, ?_⟩
  · simpa only [List.append_assoc, List.cons_append] using hfirst
  · rw [assemble_concat, hassemble, hbuild]
  · rw [List.length_append, hlength]
    rfl
  · intro others final hothers
    have hword' := skipLayout_spelling hword (' ' :: (rightText ++ rest))
    have hblank : skipLayout (' ' :: (rightText ++ rest)) = rightText ++ rest :=
      (hfront rest).dropWhile_eq
    rw [List.append_assoc]
    refine hsteps _ _ (.round ?_ ?_ hothers)
    · rw [hword', levelStep, chainStep,
        bind_of_done (lexeme_of_stops (stops_spelling hword _) hread hblank),
        bind_of_done (cut_of_done (hright rest hrest))]
      rfl
    · have hle := length_skipLayout_le rest
      rw [hword']
      simp only [List.length_append, List.length_cons]
      omega

end

namespace Formula

theorem Printed.stops_isLayout {level : Nat} {f : Formula} {text : List Char}
    (h : Printed level f text) (rest : List Char) : Stops Text.isLayout (text ++ rest) := by
  induction h generalizing rest with
  | integer level n =>
      obtain ⟨c, others, hs, hc⟩ := spelling_eq_cons n
      have hhead : (n.spelling ++ rest).head? = some c := by
        rw [hs]
        rfl
      exact Template.stops_isLayout (stops_foreignFronts hhead hc rfl)
  | boolean level value => cases value <;> exact .cons rfl _
  | null => exact .cons rfl _
  | text => exact .cons rfl _
  | reference => exact .cons rfl _
  | not level hword _ _ =>
      simp only [List.mem_cons, List.not_mem_nil, or_false] at hword
      rcases hword with rfl | rfl <;> exact .cons rfl _
  | negate => exact .cons rfl _
  | binary _ _ _ _ ihleft _ =>
      rw [List.append_assoc, List.append_assoc]
      exact ihleft _
  | enclosed => exact .cons rfl _

def Stands (inner : Inner) (level : Nat) (f : Formula) (text : List Char) : Prop :=
  Reads inner level f.expr text ∧
    (level < unaryLevel → Starts inner level f.expr text (f.run level))

variable {inner : Inner} {level : Nat} {f : Formula} {text : List Char}

theorem stands_of_unary (h : ∀ rest, Follows unaryLevel rest →
      unary inner (text ++ rest) = .done f.expr (skipLayout rest))
    (hrun : f.run level = 0) (hlevel : level ≤ unaryLevel) : Stands inner level f text := by
  have hreads : Reads inner unaryLevel f.expr text := h
  refine ⟨hreads.descend hlevel (Nat.le_refl _), fun hbelow => ?_⟩
  rw [hrun]
  exact (hreads.descend hbelow (Nat.le_refl _)).starts

theorem stands_of_starts {op : BinaryOperator} {left right : Formula}
    (h : Starts inner op.level (Formula.binary op left right).expr text (left.run op.level + 1))
    (hlevel : level ≤ op.level) (hrun : left.run op.level + 1 ≤ maxOperators) :
    Stands inner level (.binary op left right) text := by
  have hreads := h.reads op.level_lt hrun
  refine ⟨hreads.descend hlevel (Nat.le_of_lt op.level_lt), fun _ => ?_⟩
  rcases Nat.eq_or_lt_of_le hlevel with rfl | hlt
  · rw [run, if_pos rfl]
    exact h
  · rw [run, if_neg (by omega)]
    exact (hreads.descend hlt (Nat.le_of_lt op.level_lt)).starts

theorem Printed.stands (h : Printed level f text) {levels : Nat}
    (hnesting : f.nesting level ≤ levels) (hrun : f.longestRun ≤ maxOperators)
    (hlevel : level ≤ unaryLevel) : Stands (Inner.within levels) level f text := by
  induction h generalizing levels with
  | integer level n =>
      exact stands_of_unary (fun rest hrest => unary_integer _ n hrest.endsOperand) rfl hlevel
  | boolean level value =>
      exact stands_of_unary (fun rest hrest => unary_boolean _ value hrest.endsOperand) rfl hlevel
  | null level =>
      exact stands_of_unary (fun rest hrest => unary_null _ hrest.endsOperand) rfl hlevel
  | text level hescaped =>
      exact stands_of_unary (fun rest _ => unary_text _ hescaped) rfl hlevel
  | reference level r =>
      exact stands_of_unary (fun rest hrest => unary_reference _ r hrest.endsOperand) rfl hlevel
  | @not level operand word text hword hoperand ih =>
      cases levels with
      | zero => exact absurd hnesting (Nat.not_succ_le_zero _)
      | succ inside =>
          have hreads := (ih (Nat.le_of_succ_le_succ hnesting) hrun (Nat.le_refl _)).1
          refine stands_of_unary ?_ rfl hlevel
          intro rest hrest
          rw [List.append_assoc]
          exact unary_not _ hword (hoperand.stops_isLayout rest) (hreads rest hrest)
  | @negate level operand text hoperand ih =>
      cases levels with
      | zero => exact absurd hnesting (Nat.not_succ_le_zero _)
      | succ inside =>
          have hreads := (ih (Nat.le_of_succ_le_succ hnesting) hrun (Nat.le_refl _)).1
          refine stands_of_unary ?_ rfl hlevel
          intro rest hrest
          exact unary_negate _ (hoperand.stops_isLayout rest) (hreads rest hrest)
  | @binary level op left right word leftText rightText hle hword hleft hright ihleft ihright =>
      simp only [nesting, longestRun, Nat.max_le, if_neg (Nat.not_lt.mpr hle), Nat.zero_add]
        at hnesting hrun
      have hstarts := (ihleft hnesting.1 hrun.2.1 (Nat.le_of_lt op.level_lt)).2 op.level_lt
      have hreads := (ihright hnesting.2 hrun.2.2 op.level_lt).1
      refine stands_of_starts ?_ hle hrun.1
      exact hstarts.snoc hword hreads hright.stops_isLayout
  | @enclosed level op left right text hlt hinner ih =>
      simp only [nesting, if_pos hlt] at hnesting
      cases levels with
      | zero => omega
      | succ inside =>
          have hbare : (Formula.binary op left right).nesting 0 ≤ inside := by
            simp only [nesting, Nat.not_lt_zero, if_false]
            omega
          have hreads := (ih hbare hrun (Nat.zero_le _)).1
          refine stands_of_unary ?_ (if_neg (by omega)) hlevel
          intro rest hrest
          rw [List.append_assoc]
          exact unary_parenthesized _ (hinner.stops_isLayout _) (hreads _ (.close rest))

end Formula

theorem Inner.top_eq : Inner.top = Inner.around (Inner.within (maxNesting - 1)) :=
  rfl

theorem parseExpression_of_done {source : String} {e : Expr}
    (h : wholly (lexeme Inner.top.expression) source.toList = .done e []) :
    parseExpression source = .ok e := by
  unfold parseExpression
  dsimp only
  rw [h]

theorem parseExpression_of_expression {text : List Char} {e : Expr}
    (hfront : Stops Text.isLayout text) (h : Inner.top.expression text = .done e []) :
    parseExpression (String.ofList text) = .ok e := by
  refine parseExpression_of_done ?_
  rw [String.toList_ofList]
  exact wholly_of_done (lexeme_of_stops hfront h rfl)

theorem parseExpression_of_halts {text : List Char} (hfront : Stops Text.isLayout text)
    (h : Halts Inner.top.expression text) :
    ∃ error, parseExpression (String.ofList text) = .error error := by
  rw [← skipLayout_of_stops hfront] at h
  obtain ⟨fault, hhalt⟩ := halts_lexeme h
  have hwholly : wholly (lexeme Inner.top.expression) text = .halt fault := by
    rw [wholly, hhalt]
  unfold parseExpression
  rw [String.toList_ofList]
  dsimp only
  rw [hwholly]
  exact ⟨_, rfl⟩

theorem parseExpression_printed {f : Formula} {text : List Char} (h : f.Printed 0 text)
    (hnesting : f.nesting 0 + 1 ≤ maxNesting) (hrun : f.longestRun ≤ maxOperators) :
    Inner.top.expression text = .done f.expr [] ∧
      parseExpression (String.ofList text) = .ok f.expr := by
  have hstands : f.Stands (Inner.within (maxNesting - 1)) 0 text :=
    h.stands (Nat.le_sub_of_add_le hnesting) hrun (Nat.zero_le _)
  have hread : Inner.top.expression text = .done f.expr [] := by
    have hreads := hstands.1 [] .finish
    rw [List.append_nil] at hreads
    rw [Inner.top_eq]
    exact hreads
  have hfront := h.stops_isLayout []
  rw [List.append_nil] at hfront
  have hlexeme : lexeme Inner.top.expression text = .done f.expr [] :=
    lexeme_of_stops hfront hread rfl
  refine ⟨hread, parseExpression_of_done ?_⟩
  rw [String.toList_ofList]
  exact wholly_of_done hlexeme

def mixedFormula : Formula :=
  let integer (value : Int) (h : IntegerKind.int32.Holds value) : Formula :=
    .integer { kind := .int32, value, holds := h, narrowest := .inl rfl }
  .binary (.logical .and)
    (.binary (.comparison .lessEqual)
      (.not (.binary (.arithmetic .add) (.boolean true) (integer 12 (by decide))))
      (.negate (integer (-3) (by decide))))
    (.binary (.comparison .notEqual) (.text ['i', '\'', 'm']) .null)

theorem exists_printed_mixedFormula :
    ∃ text, mixedFormula.Printed 0 text ∧
      String.ofList text = "not (true + 12) <= - -3 and 'i\\'m' ne null" := by
  have hword : WordOperator.not.word ∈ ["!", WordOperator.not.word] := by decide
  have hand : "and" ∈ BinaryOperator.spellings (.logical .and) := by decide
  have hne : "ne" ∈ BinaryOperator.spellings (.comparison .notEqual) := by decide
  have hescaped : Escaped '\'' ['i', '\'', 'm'] ['i', '\\', '\'', 'm'] :=
    .plain (by decide) (by decide) (.escape rfl (.plain (by decide) (by decide) .nil))
  exact ⟨_,
    .binary (Nat.zero_le _) hand
      (.binary (by decide) (List.mem_cons_self ..)
        (.not _ hword
          (.enclosed (by decide)
            (.binary (Nat.zero_le _) (List.mem_cons_self ..) (.boolean _ true) (.integer _ _))))
        (.negate _ (.integer _ _)))
      (.binary (by decide) hne (.text _ hescaped) (.null _)),
    by decide⟩

theorem parseExpression_printed_mixedFormula :
    parseExpression "not (true + 12) <= - -3 and 'i\\'m' ne null" = .ok mixedFormula.expr := by
  obtain ⟨text, hprinted, htext⟩ := exists_printed_mixedFormula
  rw [← htext]
  exact (parseExpression_printed hprinted (by decide) (by decide)).2

end Stencil.Template
