import Stencil.Proofs.Extents
import Stencil.Proofs.Lexemes
import Stencil.Proofs.Tokens
import Stencil.Template.Parse

namespace Stencil.Template

open Reader

theorem stays_identifier : Stays identifier := by
  intro text
  unfold identifier
  split
  · split
    · exact .done _ ((List.dropWhile_suffix _).trans (List.suffix_cons _ _))
    · exact stays_missing _ _
  · exact stays_missing _ _

theorem stays_identifierAs {α : Type} (decode : String → Option α) :
    Stays (identifierAs decode) := by
  intro text
  have hreply := stays_identifier text
  unfold identifierAs
  generalize identifier text = reply at hreply
  cases hreply with
  | done word hrest =>
      simp only
      split
      · exact .done _ hrest
      · exact stays_missing _ _
  | miss hfault => exact .miss hfault
  | halt hfault => exact .halt hfault

theorem stays_keyword (chars : List Char) : Stays (keyword chars) :=
  (Stays.word chars).bind fun _ => .notBefore _

theorem append_of_map_prepend (front : List Char) {text body after : List Char} {mark : Char}
    {split : Option (List Char × List Char)}
    (hsplit : ∀ {body after}, split = some (body, after) → text = body ++ mark :: after)
    (h : split.map (fun (body, after) => (front ++ body, after)) = some (body, after)) :
    front ++ text = body ++ mark :: after := by
  obtain ⟨⟨inside, behind⟩, hfound, heq⟩ := Option.map_eq_some_iff.mp h
  cases heq
  rw [hsplit hfound, List.append_assoc]

theorem append_of_splitAtQuote {quote : Char} {text body after : List Char}
    (h : splitAtQuote quote text = some (body, after)) : text = body ++ quote :: after := by
  fun_induction splitAtQuote quote text generalizing body after with
  | case1 => cases h
  | case2 => cases h
  | case3 c rest ih => exact append_of_map_prepend ['\\', c] ih h
  | case4 c rest _ _ hc =>
      cases h
      rw [beq_iff_eq.mp hc]
      rfl
  | case5 c rest _ _ hc ih => exact append_of_map_prepend [c] ih h

theorem append_of_splitAtBrace {depth : Nat} {quote : Option Char} {text body after : List Char}
    (h : splitAtBrace depth quote text = some (body, after)) : text = body ++ '\x7d' :: after := by
  fun_induction splitAtBrace depth quote text generalizing body after with
  | case1 => cases h
  | case2 => cases h
  | case3 depth quote c rest ih => exact append_of_map_prepend ['\\', c] ih h
  | case7 c rest _ _ _ _ hc =>
      cases h
      rw [beq_iff_eq.mp hc]
      rfl
  | case4 _ c | case5 _ c | case6 _ c | case8 c | case9 _ c =>
      rename_i ih
      exact append_of_map_prepend [c] (ih _ _) h

theorem quotedBody_cases (quote : Char) (text : List Char) :
    (∃ body after, text = quote :: (body ++ quote :: after) ∧
      quotedBody quote text = .done body after) ∨
    ∃ complaint, quotedBody quote text = missing complaint text ∨
      quotedBody quote text = halting complaint text := by
  cases text with
  | nil => exact .inr ⟨_, .inl rfl⟩
  | cons c rest =>
      simp only [quotedBody]
      split
      · rename_i hc
        split
        · rename_i body after hsplit
          rw [append_of_splitAtQuote hsplit, beq_iff_eq.mp hc]
          exact .inl ⟨body, after, rfl, rfl⟩
        · exact .inr ⟨_, .inr rfl⟩
      · exact .inr ⟨_, .inl rfl⟩

theorem stays_quotedBody (quote : Char) : Stays (quotedBody quote) := by
  intro text
  obtain ⟨body, after, rfl, hread⟩ | ⟨complaint, hread | hread⟩ := quotedBody_cases quote text
  · rw [hread]
    refine .done body ?_
    exact ⟨quote :: (body ++ [quote]), by simp⟩
  · rw [hread]
    exact stays_missing _ _
  · rw [hread]
    exact stays_halting _ (List.suffix_refl text)

theorem suffix_of_span {p : Char → Bool} {text front rest : List Char}
    (h : text.span p = (front, rest)) : rest <:+ text := by
  rw [List.span_eq_takeWhile_dropWhile] at h
  cases h
  exact List.dropWhile_suffix _

theorem stays_numeralText : Stays numeralText := by
  intro text
  unfold numeralText
  split
  rename_i sign unsigned hsign
  have hunsigned : unsigned <:+ text := by
    split at hsign
    · cases hsign
      exact List.suffix_cons _ _
    · cases hsign
      exact List.suffix_refl _
  split
  · exact stays_missing _ _
  · rename_i hspan
    have hrest := (suffix_of_span hspan).trans hunsigned
    split
    · split
      · exact .done _ hrest
      · rename_i hfraction
        exact .done _ (((suffix_of_span hfraction).trans (List.suffix_cons _ _)).trans hrest)
    · exact .done _ hrest

theorem stays_numberLiteral : Stays numberLiteral := by
  intro text
  have hreply := stays_numeralText text
  unfold numberLiteral
  generalize numeralText text = reply at hreply
  cases hreply with
  | done numeral hrest =>
      simp only
      split
      · exact .done _ hrest
      · exact stays_missing _ _
  | miss hfault => exact .miss hfault
  | halt hfault => exact .halt hfault

theorem stays_keywordLiteral (chars : List Char) (value : Literal) :
    Stays (keywordLiteral chars value) :=
  (stays_keyword chars).bind fun _ => .pure _

theorem stays_singleQuoted : Stays singleQuoted :=
  (stays_quotedBody _).bind fun _ => .pure _

theorem stays_notSign : Stays notSign :=
  ((Stays.char _).bind fun _ => .notBefore _).orElse (stays_identifierAs _)

theorem stays_symbolOf {α : Type} (chars : List Char) (value : α) : Stays (symbolOf chars value) :=
  (Stays.word chars).bind fun _ => .pure value

theorem stays_multiplicativeOperator : Stays multiplicativeOperator := by
  refine (stays_symbolOf _ _).orElse ((stays_symbolOf _ _).orElse ?_)
  exact (Stays.char _).bind fun _ => (Stays.notBefore _).bind fun _ => .pure _

theorem stays_additiveOperator : Stays additiveOperator :=
  (stays_symbolOf _ _).orElse (stays_symbolOf _ _)

theorem stays_comparisonOperator : Stays comparisonOperator := by
  refine (stays_symbolOf _ _).orElse ((stays_symbolOf _ _).orElse ((stays_symbolOf _ _).orElse ?_))
  refine (stays_symbolOf _ _).orElse ((stays_symbolOf _ _).orElse ((stays_symbolOf _ _).orElse ?_))
  exact stays_identifierAs _

theorem stays_andOperator : Stays andOperator :=
  ((Stays.word _).orElse (stays_identifierAs _)).bind fun _ => .pure _

theorem stays_orOperator : Stays orOperator :=
  ((Stays.word _).orElse (stays_identifierAs _)).bind fun _ => .pure _

def behindSign : Reader Directive :=
  (do
    char '\x7b'
    let d ← identifierAs Directive.ofWord?
    char '\x7d'
    return d) <|> identifierAs Directive.ofWord?

theorem stays_behindSign : Stays behindSign := by
  refine Stays.orElse ?_ (stays_identifierAs _)
  refine (Stays.char _).bind fun _ => (stays_identifierAs _).bind fun d => ?_
  exact (Stays.char _).bind fun _ => .pure d

theorem stays_directiveWord : Stays directiveWord :=
  (Stays.char _).bind fun _ => stays_behindSign

theorem stays_directive (expected : Directive) : Stays (directive expected) := by
  intro text
  have hreply := stays_directiveWord text
  unfold directive
  generalize directiveWord text = reply at hreply
  cases hreply with
  | done d hrest =>
      simp only
      split
      · exact .done () hrest
      · exact stays_missing _ _
  | miss | halt => exact stays_missing _ _

theorem stays_lineEnd : Stays lineEnd := by
  intro text
  unfold lineEnd
  split
  · exact .done () ((List.suffix_cons _ _).trans (List.suffix_cons _ _))
  · exact .done () (List.suffix_cons _ _)
  · exact .done () (List.suffix_refl _)

theorem suffix_of_afterBlockComment? {text after : List Char}
    (h : afterBlockComment? text = some after) : after <:+ text := by
  fun_induction afterBlockComment? text with
  | case1 rest =>
      cases h
      exact (List.suffix_cons _ _).trans (List.suffix_cons _ _)
  | case2 c rest _ ih => exact (ih h).trans (List.suffix_cons _ _)
  | case3 => cases h

theorem stays_comment : Stays comment := by
  intro text
  unfold comment
  split
  · rename_i rest
    have hrest : rest <:+ '#' :: '#' :: rest := List.suffix_append ['#', '#'] rest
    have hline := (List.dropWhile_suffix (l := rest) fun c => c != '\n' && c != '\r').trans hrest
    split
    · rename_i after heq
      rw [heq] at hline
      exact .done () ((List.suffix_cons _ _).trans hline)
    · rename_i after heq
      rw [heq] at hline
      exact .done () ((List.suffix_append ['\r', '\n'] after).trans hline)
    · exact .done () (List.nil_suffix)
    · exact stays_missing _ _
  · rename_i rest
    have hrest : rest <:+ '#' :: '*' :: rest := List.suffix_append ['#', '*'] rest
    split
    · rename_i after hafter
      exact .done () ((suffix_of_afterBlockComment? hafter).trans hrest)
    · exact stays_halting _ hrest
  · exact stays_missing _ _

theorem stays_plainText : Stays plainText := by
  intro text
  unfold plainText
  split
  · exact stays_missing _ _
  · rename_i hspan
    exact .done _ (suffix_of_span hspan)

theorem stays_strayMarker : Stays strayMarker := by
  intro text
  unfold strayMarker
  split
  · split
    · exact .done _ (List.suffix_cons _ _)
    · exact stays_missing _ _
  · exact stays_missing _ _

theorem append_of_splitBare (depth : Nat) (text : List Char) :
    text = (splitBare depth text).1 ++ (splitBare depth text).2 := by
  induction text generalizing depth with
  | nil => rfl
  | cons c rest ih =>
      simp only [splitBare]
      split_ifs <;> simp [← ih]

theorem append_of_splitValue {text value rest : List Char}
    (h : splitValue text = .ok (value, rest)) : text = value ++ rest := by
  cases text with
  | nil => cases h
  | cons c others =>
      simp only [splitValue] at h
      split at h
      · split at h
        · rename_i hsplit
          cases h
          rw [append_of_splitAtQuote hsplit]
          simp
        · cases h
      · split at h
        · rename_i hc
          split at h
          · rename_i hsplit
            cases h
            rw [append_of_splitAtBrace hsplit]
            simp
          · cases h
        · have happend := append_of_splitBare 0 (c :: others)
          rwa [Except.ok.inj h] at happend

theorem closed_of_splitValue {text tail rest : List Char}
    (h : splitValue text = .ok ('\x7b' :: tail, rest)) : ∃ body, tail = body ++ ['\x7d'] := by
  cases text with
  | nil => cases h
  | cons c others =>
      simp only [splitValue] at h
      split at h
      · rename_i hquote
        split at h
        · cases h
          simp at hquote
        · cases h
      · split at h
        · split at h
          · cases h
            exact ⟨_, rfl⟩
          · cases h
        · rename_i hbrace
          have happend := append_of_splitBare 0 (c :: others)
          rw [Except.ok.inj h] at happend
          cases happend
          simp at hbrace

/-- A value is empty in front of a comma only. -/
theorem eq_comma_of_splitValue {text rest : List Char} (h : splitValue text = .ok ([], rest))
    (hblank : ∀ c ∈ text.head?, Text.isBlank c = false) : ∃ others, text = ',' :: others := by
  cases text with
  | nil => cases h
  | cons c others =>
      have hc : Text.isBlank c = false := hblank c rfl
      simp only [splitValue] at h
      split at h
      · split at h <;> cases h
      · split at h
        · split at h <;> cases h
        · simp only [splitBare, hc] at h
          split at h
          · cases h
          · split at h
            · cases h
            · split at h
              · rename_i hcomma
                simp only [beq_self_eq_true, Bool.false_or, Bool.true_and, beq_iff_eq] at hcomma
                exact ⟨others, by rw [hcomma]⟩
              · cases h

theorem isBlank_head?_trimStart (text : List Char) :
    ∀ c ∈ (Text.trimStart text).head?, Text.isBlank c = false :=
  Stops.dropWhile Text.isBlank text

theorem append_of_split? {delimiters text token after : List Char}
    (h : Text.Tokens.split? delimiters text = some (token, after)) :
    token ≠ [] ∧ ∃ gap, (∀ c ∈ gap, delimiters.contains c = true) ∧
      text = gap ++ (token ++ after) ∧ Stops (!delimiters.contains ·) after := by
  have hrun := Text.Tokens.firstRun_of_split? h
  obtain ⟨gap, hgap, htext⟩ := hrun.gap
  exact ⟨hrun.nonempty, gap, fun c hc => List.contains_iff_mem.mpr (hgap c hc), htext,
    fun c hc => by simpa using hrun.after c hc⟩

theorem suffix_of_afterEquals? {after rest : List Char} (h : afterEquals? after = some rest) :
    rest <:+ after := by
  unfold afterEquals? at h
  split at h
  · cases h
    exact List.suffix_cons _ _
  · split at h
    · rename_i heq
      cases h
      have htrimmed : Text.trimStart after.tail <:+ after :=
        (List.dropWhile_suffix _).trans (List.tail_suffix after)
      rw [heq] at htrimmed
      exact (List.suffix_cons _ _).trans htrimmed
    · cases h

/-- The fault lies in the body of a map literal and the brace behind it, whatever follows that. -/
def Fault.LiesInBraced (fault : Fault) (body : List Char) : Prop :=
  ∀ after, (fault.before (after.length + 1)).LiesWithin (body ++ '\x7d' :: after)

theorem Fault.LiesWithin.liesInBraced {fault : Fault} {body : List Char}
    (h : fault.LiesWithin body) : fault.LiesInBraced body :=
  fun after => h.before [] ('\x7d' :: after)

theorem Fault.LiesInBraced.mono {fault : Fault} {part body : List Char}
    (h : fault.LiesInBraced part) (hpart : part <:+ body) : fault.LiesInBraced body := by
  obtain ⟨front, rfl⟩ := hpart
  exact fun after => (h after).mono ⟨front, by rw [List.append_assoc]⟩

/-- At the end of the body the brace is what stands behind a gap. -/
theorem Fault.liesInBraced_of_suffix {complaint : Complaint} {part body : List Char}
    (h : part <:+ body) (hgap : part = [] → complaint.isGap = true) :
    LiesInBraced { complaint, location := { piece := part, behind := 0 } } body := by
  refine LiesInBraced.mono (fun after => ?_) h
  have hbehind : 0 + (after.length + 1) = after.length + 1 := Nat.zero_add _
  refine ⟨⟨[], '\x7d' :: after, rfl, hbehind⟩, fun hempty => ?_⟩
  have hpart : part = [] := hempty
  exact ⟨hgap hpart, hpart, [], '\x7d', after, by rw [hpart, List.nil_append], hbehind, .inr rfl⟩

theorem skipLayout_ne_nil {raw : List Char} (h : looksLikeMap raw = true) :
    skipLayout raw ≠ [] := by
  intro hnil
  have hblank : Text.trimStart raw = [] := List.dropWhile_eq_nil_iff.mpr fun c hc =>
    Text.isBlank_of_isLayout (List.dropWhile_eq_nil_iff.mp hnil c hc)
  simp [looksLikeMap, Text.trim, hblank, Text.trimEnd] at h

def markedBody (inner : Inner) : Reader (Bool × String × List Accessor) := do
  let mark ← option (char '!')
  let body ← bracedBody inner <|> referenceBody inner
  return (mark.isSome, body)

def behindEquals (inner : Inner) (key raw : List Char) : Reply MapEntry :=
  match splitValue raw with
  | .error complaint => halting complaint raw
  | .ok (value, rest) =>
      if !separates rest then halting .expectedSeparator rest
      else
        match mapValue inner value with
        | .ok found => .done (.mk (String.ofList key) found) rest
        | .error fault => .halt (fault.before rest.length)

structure Inner.Stays (inner : Inner) : Prop where
  expression : Reader.Stays inner.expression
  operand : Reader.Stays inner.operand
  block : Reader.Stays inner.block
  braced : ∀ body fault, inner.braced ('\x7b' :: (body ++ ['\x7d'])) = .error fault →
    fault.LiesWithin ('\x7b' :: (body ++ ['\x7d']))

namespace Inner.Stays

variable {inner : Inner} (h : inner.Stays)
include h

theorem arguments : Reader.Stays (arguments inner) := by
  refine (Reader.Stays.char _).bind fun _ => (Reader.Stays.under _ ?_).cut
  refine ((Reader.Stays.char _).separated h.expression.lexeme).bind fun items => ?_
  exact (Reader.Stays.skipWhile _).bind fun _ => (Reader.Stays.char _).bind fun _ => .pure items

theorem accessor : Reader.Stays (accessor inner) := by
  refine (Reader.Stays.char _).bind fun _ => stays_identifier.bind fun name => ?_
  refine h.arguments.option.bind fun items => ?_
  cases items with
  | none => exact .pure _
  | some items => exact .pure _

theorem referenceBody : Reader.Stays (referenceBody inner) :=
  stays_identifier.bind fun root => h.accessor.many.bind fun path => .pure (root, path)

theorem bracedBody : Reader.Stays (bracedBody inner) := by
  refine (Reader.Stays.char _).bind fun _ => h.referenceBody.bind fun body => ?_
  exact (Reader.Stays.char _).bind fun _ => .pure body

theorem markedBody : Reader.Stays (markedBody inner) := by
  refine (Reader.Stays.char _).option.bind fun mark => ?_
  exact (h.bracedBody.orElse h.referenceBody).bind fun body => .pure (mark.isSome, body)

theorem reference : Reader.Stays (reference inner) :=
  ((Reader.Stays.char _).bind fun _ => h.markedBody).spanned.bind fun _ => .pure _

theorem exists_behind_set :
    ∃ behind, Template.setNode inner = (directive .set >>= fun _ => behind) ∧
      Reader.Stays behind := by
  refine ⟨_, rfl, ?_⟩
  refine (((Reader.Stays.skipWhile _).bind fun _ => .char _).under _).cut.bind fun _ opened => ?_
  refine ends_bind (((h.reference.lexeme).under _).cut opened) fun target rest hrest => ?_
  refine staysIn_refusing _ (List.suffix_refl opened) (Reply.StaysIn.mono ?_ hrest)
  refine Reader.Stays.bind (.cut (.under _ ?_)) (fun value => ?_) rest
  · refine (Reader.Stays.char _).bind fun _ => h.expression.bind fun value => ?_
    exact (Reader.Stays.skipWhile _).bind fun _ => (Reader.Stays.char _).bind fun _ => .pure value
  · exact stays_lineEnd.bind fun _ => .pure _

theorem setNode : Reader.Stays (setNode inner) := by
  obtain ⟨behind, hset, hbehind⟩ := h.exists_behind_set
  rw [hset]
  exact (stays_directive _).bind fun _ => hbehind

theorem ifNode : Reader.Stays (ifNode inner) :=
  (stays_directive _).bind fun _ => h.block

theorem node : Reader.Stays (node inner) := by
  refine (stays_comment.bind fun _ => .pure _).orElse ?_
  refine (h.setNode.map some).orElse ((h.ifNode.map some).orElse ?_)
  refine (h.reference.bind fun _ => .pure _).orElse ?_
  exact (stays_plainText.bind fun _ => .pure _).orElse (stays_strayMarker.bind fun _ => .pure _)

theorem nodeSequence : Reader.Stays (nodeSequence inner) :=
  h.node.many.bind fun _ => .pure _

theorem condition : Reader.Stays (condition inner) := by
  refine Reader.Stays.under _ ((Reader.Stays.skipWhile _).bind fun _ => ?_)
  refine (Reader.Stays.char _).bind fun _ => h.expression.lexeme.bind fun value => ?_
  exact (Reader.Stays.char _).bind fun _ => stays_lineEnd.bind fun _ => .pure value

theorem branch : Reader.Stays (branch inner) :=
  h.condition.bind fun _ => h.nodeSequence.bind fun _ => .pure _

theorem conditional : Reader.Stays (conditional inner) := by
  refine h.branch.cut.bind fun first => ?_
  refine ((stays_directive _).bind fun _ => h.branch.cut).many.bind fun others => ?_
  refine ((stays_directive _).bind fun _ => stays_lineEnd.bind fun _ =>
    h.nodeSequence).option.bind fun otherwise => ?_
  refine ((stays_directive _).under _).cut.bind fun _ => ?_
  exact stays_lineEnd.bind fun _ => .pure _

theorem mapValue {value : List Char} {fault : Fault} (hne : value ≠ [])
    (hclosed : ∀ tail, value = '\x7b' :: tail → ∃ body, tail = body ++ ['\x7d'])
    (hvalue : mapValue inner value = .error fault) : fault.LiesWithin value := by
  have hwhole (complaint : Complaint) :
      Fault.LiesWithin { complaint, location := { piece := value, behind := 0 } } value :=
    Fault.liesWithin_of_suffix complaint (List.suffix_refl value) hne
  unfold Template.mapValue at hvalue
  dsimp only at hvalue
  split at hvalue
  · split at hvalue
    · cases hvalue
    · cases hvalue
      exact hwhole _
  · split at hvalue
    · cases hvalue
    · cases hvalue
      exact hwhole _
  · obtain ⟨body, rfl⟩ := hclosed _ rfl
    cases hbraced : inner.braced ('\x7b' :: (body ++ ['\x7d'])) with
    | ok entries =>
        rw [hbraced] at hvalue
        cases hvalue
    | error error =>
        rw [hbraced] at hvalue
        cases hvalue
        exact h.braced _ _ hbraced
  · split at hvalue
    · cases hvalue
    · cases hvalue
      exact hwhole _
  · split_ifs at hvalue
    split at hvalue
    · cases hvalue
    · cases hvalue
      exact hwhole _

theorem entryValue {raw value rest : List Char} {fault : Fault}
    (hsplit : splitValue raw = .ok (value, rest))
    (hblank : ∀ c ∈ raw.head?, Text.isBlank c = false)
    (hvalue : Template.mapValue inner value = .error fault) :
    (fault.before rest.length).LiesWithin raw := by
  have happend := append_of_splitValue hsplit
  by_cases hempty : value = []
  · subst hempty
    obtain ⟨others, hcomma⟩ := eq_comma_of_splitValue hsplit hblank
    have hrest : rest = ',' :: others := happend.symm.trans hcomma
    have hbehind : 0 + rest.length = others.length + 1 := by
      rw [hrest, Nat.zero_add, List.length_cons]
    cases hvalue
    exact ⟨⟨[], rest, happend, Nat.zero_add _⟩,
      fun _ => ⟨rfl, rfl, [], ',', others, hcomma, hbehind, .inl rfl⟩⟩
  · rw [happend]
    refine (h.mapValue hempty ?_ hvalue).before [] rest
    rintro tail rfl
    exact closed_of_splitValue hsplit

theorem behindEquals (key : List Char) {raw : List Char}
    (hblank : ∀ c ∈ raw.head?, Text.isBlank c = false) :
    (behindEquals inner key raw).Ends raw (fun _ => True) (·.LiesInBraced raw) := by
  unfold Template.behindEquals
  split
  · rename_i complaint hvalue
    refine .halt (Fault.liesInBraced_of_suffix (List.suffix_refl raw) ?_)
    rintro rfl
    cases hvalue
    rfl
  · rename_i value rest hvalue
    have hrest : rest <:+ raw := by
      rw [append_of_splitValue hvalue]
      exact List.suffix_append value rest
    split
    · rename_i hseparates
      refine .halt (Fault.liesInBraced_of_suffix hrest ?_)
      rintro rfl
      exact absurd hseparates nofun
    · split
      · exact .done _ hrest
      · rename_i fault hfault
        exact .halt (h.entryValue hvalue hblank hfault).liesInBraced

theorem mapEntry (text : List Char) :
    (mapEntry inner text).Ends text (fun _ => True) (·.LiesInBraced text) := by
  unfold Template.mapEntry
  split
  · exact .miss trivial
  · rename_i hall
    have hne : text ≠ [] := by
      rintro rfl
      exact hall rfl
    split
    · exact .halt (Fault.liesInBraced_of_suffix (List.suffix_refl text) fun hnil => absurd hnil hne)
    · rename_i key after hsplit
      obtain ⟨hkey, front, -, rfl, -⟩ := append_of_split? hsplit
      have hafter : after <:+ front ++ (key ++ after) :=
        (List.suffix_append key after).trans (List.suffix_append front _)
      split
      · have hlies : Fault.LiesWithin
            { complaint := .keyNotIdentifier, location := { piece := key, behind := after.length } }
            (front ++ (key ++ after)) :=
          ⟨⟨front, after, rfl, rfl⟩, fun hempty => absurd hempty hkey⟩
        exact .halt hlies.liesInBraced
      · split
        · exact .halt (Fault.liesInBraced_of_suffix ((List.tail_suffix after).trans hafter)
            fun _ => rfl)
        · rename_i raw hequals
          have hraw : Text.trimStart raw <:+ front ++ (key ++ after) :=
            ((List.dropWhile_suffix _).trans (suffix_of_afterEquals? hequals)).trans hafter
          have hblank := isBlank_head?_trimStart raw
          have hreply := h.behindEquals key hblank
          exact hreply.mono hraw (fun _ _ => trivial) fun _ hfault => hfault.mono hraw

theorem mapEntries {body : List Char} {fault : Fault}
    (hentries : mapEntries inner body = .error fault) : fault.LiesInBraced body := by
  have hdone (text rest : List Char) (entry : MapEntry)
      (hread : Template.mapEntry inner text = .done entry rest) : rest <:+ text := by
    have hreply := h.mapEntry text
    rw [hread] at hreply
    cases hreply with
    | done _ hrest => exact hrest
  unfold Template.mapEntries at hentries
  obtain ⟨entries, rest, hread, -⟩ | ⟨part, found, hpart, hfound, hread⟩ :=
    manyWithin_cases hdone body body
  · rw [many, hread] at hentries
    cases hentries
  · rw [many, hread] at hentries
    cases hentries
    have hreply := h.mapEntry part
    rw [hfound] at hreply
    cases hreply with
    | halt hlies => exact hlies.mono hpart

theorem mapLiteral_within {text : List Char} (hne : text ≠ []) :
    (mapLiteral inner text).StaysWithin text := by
  unfold Template.mapLiteral
  split
  · rename_i rest
    split
    · exact .halt (Fault.liesWithin_of_suffix _ (List.suffix_refl _) hne)
    · rename_i body after hsplit
      rw [append_of_splitAtBrace hsplit]
      split
      · exact .done _ ⟨'%' :: '\x7b' :: (body ++ ['\x7d']), by simp⟩
      · rename_i fault hfault
        exact .halt ((h.mapEntries hfault after).mono (List.suffix_append ['%', '\x7b'] _))
  · exact .miss (Fault.liesWithin_of_suffix _ (List.suffix_refl _) hne)

theorem mapLiteral : Reader.Stays (mapLiteral inner) := by
  intro text
  by_cases hempty : text = []
  · subst hempty
    exact stays_missing _ _
  · exact (h.mapLiteral_within hempty).staysIn

theorem bracedEntries {body : List Char} {fault : Fault}
    (hentries : bracedEntries inner ('\x7b' :: (body ++ ['\x7d'])) = .error fault) :
    fault.LiesWithin ('\x7b' :: (body ++ ['\x7d'])) := by
  have hinside : withoutEnds ('\x7b' :: (body ++ ['\x7d'])) = body := by simp [withoutEnds]
  unfold Template.bracedEntries at hentries
  rw [hinside] at hentries
  cases hbody : Template.mapEntries inner body with
  | ok entries =>
      rw [hbody] at hentries
      cases hentries
  | error error =>
      rw [hbody] at hentries
      cases hentries
      exact (h.mapEntries hbody []).mono (List.suffix_cons _ _)

theorem rawMap {raw : List Char} (hlooks : looksLikeMap raw = true) :
    (wholly (lexeme (Template.mapLiteral inner)) raw).StaysWithin raw := by
  have hread : (lexeme (Template.mapLiteral inner) raw).StaysWithin raw := by
    rw [lexeme, bind_of_done (layout_eq raw)]
    have hliteral := h.mapLiteral_within (skipLayout_ne_nil hlooks)
    refine ends_bind (hliteral.mono (List.dropWhile_suffix _)) fun value rest hrest => ?_
    exact .done value ((List.dropWhile_suffix _).trans hrest)
  exact ends_wholly hread fun rest hrest hne => Fault.liesWithin_of_suffix _ hrest hne

theorem parenthesized : Reader.Stays (parenthesized inner) := by
  refine (Reader.Stays.char _).bind fun _ => (Reader.Stays.under _ ?_).cut
  exact h.expression.lexeme.bind fun value => (Reader.Stays.char _).bind fun _ => .pure value

theorem listLiteral : Reader.Stays (listLiteral inner) := by
  refine (Reader.Stays.char _).bind fun _ => (Reader.Stays.under _ ?_).cut
  refine ((Reader.Stays.char _).separated h.expression.lexeme).bind fun items => ?_
  exact (Reader.Stays.skipWhile _).bind fun _ => (Reader.Stays.char _).bind fun _ => .pure _

/-- The text between the quotes is read with its escapes undone, so that faults found there have no
place in the source: they come to one fault of the whole text. -/
theorem doubleQuoted : Reader.Stays (doubleQuoted inner) := by
  intro text
  unfold Template.doubleQuoted
  obtain ⟨body, after, rfl, hread⟩ | ⟨complaint, hread | hread⟩ := quotedBody_cases '"' text
  · have hafter : after <:+ '"' :: (body ++ '"' :: after) := ⟨'"' :: (body ++ ['"']), by simp⟩
    rw [hread]
    dsimp only
    split
    · rename_i hlooks
      have hentries := h.rawMap hlooks
      generalize wholly (lexeme (Template.mapLiteral inner)) body = reply at hentries
      cases hentries with
      | done => exact .done _ hafter
      | miss hfault | halt hfault => exact .halt (hfault.before ['"'] ('"' :: after)).liesIn
    · generalize wholly (Template.nodeSequence inner) (unescape body) = reply
      cases reply with
      | done => exact .done _ hafter
      | miss | halt => exact stays_halting _ (List.suffix_refl _)
  · rw [hread]
    exact stays_missing _ _
  · rw [hread]
    exact stays_halting _ (List.suffix_refl text)

theorem primary : Reader.Stays (primary inner) := by
  refine (Reader.Stays.orElse h.parenthesized ?_).lexeme
  refine (h.mapLiteral.bind fun _ => .pure _).orElse (h.listLiteral.orElse ?_)
  refine h.doubleQuoted.orElse (stays_singleQuoted.orElse (stays_numberLiteral.orElse ?_))
  refine (stays_keywordLiteral _ _).orElse ((stays_keywordLiteral _ _).orElse ?_)
  exact (stays_keywordLiteral _ _).orElse (h.reference.bind fun _ => .pure _)

theorem unary : Reader.Stays (unary inner) := by
  refine Reader.Stays.orElse ?_ (h.primary.orElse ?_)
  · exact stays_notSign.lexeme.bind fun _ => h.operand.cut.bind fun _ => .pure _
  · exact (Reader.Stays.char _).lexeme.bind fun _ => h.operand.cut.bind fun _ => .pure _

end Inner.Stays

theorem stays_chain {ω : Type} {operand : Reader Expr} (hoperand : Stays operand)
    {operator : Reader ω} (hoperator : Stays operator) (build : ω → Expr → Expr → Expr) :
    Stays (chain operand operator build) := by
  refine hoperand.bind fun first start => ?_
  have hsteps : Stays (do
      let op ← lexeme operator
      let right ← cut operand
      return (op, right)) :=
    hoperator.lexeme.bind fun op => hoperand.cut.bind fun right => .pure (op, right)
  refine ends_bind (hsteps.many start) fun steps rest hrest => ?_
  exact staysIn_refusing _ (List.suffix_refl start) (.done _ hrest)

namespace Inner

theorem stays_around {inner : Inner} (h : inner.Stays) : (around inner).Stays where
  expression := by
    have hproduct := stays_chain h.unary stays_multiplicativeOperator .arithmetic
    have hsum := stays_chain hproduct stays_additiveOperator .arithmetic
    have hcomparison := stays_chain hsum stays_comparisonOperator .comparison
    have hconjunction := stays_chain hcomparison stays_andOperator .logical
    exact stays_chain hconjunction stays_orOperator .logical
  operand := h.unary
  block := h.conditional
  braced _ _ := h.bracedEntries

theorem stays_none : none.Stays where
  expression text := stays_halting _ (List.suffix_refl text)
  operand text := stays_halting _ (List.suffix_refl text)
  block text := stays_halting _ (List.suffix_refl text)
  braced body fault h := by
    cases h
    exact Fault.liesWithin_of_suffix _ (List.suffix_refl _) (List.cons_ne_nil _ _)

theorem stays_within (levels : Nat) : (within levels).Stays := by
  induction levels with
  | zero => exact stays_none
  | succ levels ih => exact stays_around ih

end Inner

end Stencil.Template
