import Stencil.Proofs.Lexemes
import Stencil.Text.Tokens

namespace Stencil.Text.Tokens

open Template (Stops)

theorem byteLength_cons (c : Char) (text : List Char) :
    byteLength (c :: text) = c.utf8Size + byteLength text :=
  rfl

theorem byteLength_append (front back : List Char) :
    byteLength (front ++ back) = byteLength front + byteLength back := by
  induction front with
  | nil => simp [byteLength]
  | cons c front ih =>
      simp only [byteLength, List.cons_append, List.foldr_cons] at ih ⊢
      omega

theorem splitAtByte?_byteLength (front back : List Char) :
    splitAtByte? (byteLength front) (front ++ back) = some (front, back) := by
  induction front with
  | nil => simp [splitAtByte?, byteLength]
  | cons c front ih =>
      have hpos := c.utf8Size_pos
      obtain ⟨n, hn⟩ : ∃ n, byteLength (c :: front) = n + 1 :=
        Nat.exists_eq_succ_of_ne_zero (by rw [byteLength_cons]; omega)
      have hrest : n + 1 - c.utf8Size = byteLength front := by
        rw [← hn, byteLength_cons, Nat.add_sub_cancel_left]
      have hfits : c.utf8Size ≤ n + 1 := by
        rw [← hn, byteLength_cons]
        exact Nat.le_add_right _ _
      rw [hn, List.cons_append, splitAtByte?, if_pos hfits, hrest, ih]
      rfl

theorem append_of_splitAtByte? {n : Nat} {text front back : List Char}
    (h : splitAtByte? n text = some (front, back)) :
    text = front ++ back ∧ byteLength front = n := by
  fun_induction splitAtByte? n text generalizing front back with
  | case1 text =>
      cases h
      exact ⟨rfl, rfl⟩
  | case2 => cases h
  | case3 n c rest hfits ih =>
      obtain ⟨⟨inside, behind⟩, hsplit, heq⟩ := Option.map_eq_some_iff.mp h
      cases heq
      obtain ⟨rfl, hlength⟩ := ih hsplit
      exact ⟨rfl, by rw [byteLength_cons, hlength]; omega⟩
  | case4 => cases h

theorem splitAtByte?_eq_some_iff {n : Nat} {text front back : List Char} :
    splitAtByte? n text = some (front, back) ↔ text = front ++ back ∧ byteLength front = n := by
  refine ⟨append_of_splitAtByte?, ?_⟩
  rintro ⟨rfl, rfl⟩
  exact splitAtByte?_byteLength front back

theorem splitAtByte?_add {n k : Nat} {text front piece middle back : List Char}
    (h : splitAtByte? n text = some (front, middle))
    (hmiddle : splitAtByte? k middle = some (piece, back)) :
    splitAtByte? (n + k) text = some (front ++ piece, back) := by
  obtain ⟨rfl, rfl⟩ := append_of_splitAtByte? h
  obtain ⟨rfl, rfl⟩ := append_of_splitAtByte? hmiddle
  exact splitAtByte?_eq_some_iff.mpr ⟨(List.append_assoc _ _ _).symm, byteLength_append _ _⟩

theorem rest_of_splitAtByte? {tokens : Tokens} {front back : List Char}
    (h : splitAtByte? tokens.position tokens.source = some (front, back)) : tokens.rest = back := by
  rw [rest, h]
  rfl

/-- `token` is the first maximal run of characters that are no delimiters; `after` is all that
follows it, beginning with the delimiter that ends it. -/
structure FirstRun (delimiters text token after : List Char) : Prop where
  gap : ∃ gap, (∀ c ∈ gap, c ∈ delimiters) ∧ text = gap ++ (token ++ after)
  nonempty : token ≠ []
  token : ∀ c ∈ token, c ∉ delimiters
  after : ∀ c ∈ after.head?, c ∈ delimiters

section

variable {delimiters text token after : List Char}

theorem split?_eq_none_iff : split? delimiters text = none ↔ ∀ c ∈ text, c ∈ delimiters := by
  have hstart : text.dropWhile delimiters.contains = [] ↔ ∀ c ∈ text, c ∈ delimiters := by
    simp only [List.dropWhile_eq_nil_iff, List.contains_iff_mem]
  rw [← hstart, split?]
  split
  · rename_i h
    exact iff_of_true rfl h
  · rename_i h
    exact iff_of_false nofun (h ▸ List.cons_ne_nil _ _)

theorem append_of_split? (h : split? delimiters text = some (token, after)) :
    text = text.takeWhile delimiters.contains ++ (token ++ after) := by
  unfold split? at h
  split at h
  · cases h
  · rename_i c rest hstart
    cases h
    rw [List.cons_append, List.takeWhile_append_dropWhile, ← hstart,
      List.takeWhile_append_dropWhile]

theorem firstRun_of_split? (h : split? delimiters text = some (token, after)) :
    FirstRun delimiters text token after := by
  have happend := append_of_split? h
  unfold split? at h
  split at h
  · cases h
  · rename_i c rest hstart
    cases h
    have hc : c ∉ delimiters := by
      simpa [hstart] using List.head?_dropWhile_not delimiters.contains text
    constructor
    · exact ⟨_, fun d hd => List.contains_iff_mem.mp (List.mem_takeWhile_imp hd), happend⟩
    · exact List.cons_ne_nil _ _
    · refine List.forall_mem_cons.mpr ⟨hc, fun d hd => ?_⟩
      simpa using List.mem_takeWhile_imp hd
    · intro d hd
      simpa using Stops.dropWhile (!delimiters.contains ·) rest d hd

theorem splitAtByte?_taken (h : split? delimiters text = some (token, after)) :
    ∃ front, splitAtByte? (taken delimiters text token after) text = some (front, after.tail) := by
  have happend := append_of_split? h
  cases after with
  | nil => exact ⟨text, splitAtByte?_eq_some_iff.mpr ⟨(List.append_nil text).symm, rfl⟩⟩
  | cons d rest =>
      refine ⟨text.takeWhile delimiters.contains ++ (token ++ [d]),
        splitAtByte?_eq_some_iff.mpr ⟨?_, ?_⟩⟩
      · simpa using happend
      · rw [byteLength_append, byteLength_append, byteLength_cons, ← Nat.add_assoc]
        rfl

theorem split?_cons_of_mem {c : Char} (hc : c ∈ delimiters) (text : List Char) :
    split? delimiters (c :: text) = split? delimiters text := by
  simp only [split?, List.dropWhile_cons_of_pos (List.contains_iff_mem.mpr hc)]

theorem countIn_of_none (h : split? delimiters text = none) : countIn delimiters text = 0 := by
  rw [countIn]
  split
  · rfl
  · rename_i heq
    cases h.symm.trans heq

theorem countIn_of_some (h : split? delimiters text = some (token, after)) :
    countIn delimiters text = countIn delimiters after + 1 := by
  rw [countIn]
  split
  · rename_i heq
    cases h.symm.trans heq
  · rename_i heq
    cases h.symm.trans heq
    rfl

theorem countIn_tail (h : ∀ c ∈ after.head?, c ∈ delimiters) :
    countIn delimiters after.tail = countIn delimiters after := by
  cases after with
  | nil => rfl
  | cons c rest =>
      have hsplit := split?_cons_of_mem (h c rfl) rest
      cases hrest : split? delimiters rest with
      | none => rw [List.tail_cons, countIn_of_none hrest, countIn_of_none (hsplit.trans hrest)]
      | some run => rw [List.tail_cons, countIn_of_some hrest, countIn_of_some (hsplit.trans hrest)]

end

inductive Call where
  | next
  | nextWith (delimiters : List Char)

def Call.delimiters (tokens : Tokens) : Call → List Char
  | .next => tokens.delimiters
  | .nextWith delimiters => delimiters

def Call.answer (tokens : Tokens) : Call → Except Exhausted (List Char × Tokens)
  | .next => tokens.next
  | .nextWith delimiters => tokens.nextWith delimiters

/-- The token that a call yields and the tokens behind it, which a failing call leaves as they
were. -/
def apply (tokens : Tokens) (call : Call) : Except Exhausted (List Char) × Tokens :=
  match call.answer tokens with
  | .ok (token, left) => (.ok token, left)
  | .error exhausted => (.error exhausted, tokens)

def run (tokens : Tokens) (calls : List Call) : Tokens :=
  calls.foldl (fun tokens call => (tokens.apply call).2) tokens

def answers (tokens : Tokens) : List Call → List (Except Exhausted (List Char))
  | [] => []
  | call :: calls => (tokens.apply call).1 :: (tokens.apply call).2.answers calls

theorem Call.answer_eq (tokens : Tokens) (call : Call) :
    call.answer tokens = tokens.nextWith (call.delimiters tokens) := by
  cases call <;> rfl

section

variable {tokens : Tokens} {call : Call}

theorem apply_of_none (h : split? (call.delimiters tokens) tokens.rest = none) :
    tokens.apply call = (.error ⟨tokens.position, byteLength tokens.source⟩, tokens) := by
  simp only [apply, Call.answer_eq, nextWith, h]

theorem apply_of_some {token after : List Char}
    (h : split? (call.delimiters tokens) tokens.rest = some (token, after)) :
    tokens.apply call =
      (.ok token, {
        tokens with
        position := tokens.position + taken (call.delimiters tokens) tokens.rest token after
        lastDelimiter := after.head? }) := by
  simp only [apply, Call.answer_eq, nextWith, h]

end

/-- What every call keeps: the source, its delimiters, and a position between two characters. -/
structure FromText (source delimiters : List Char) (tokens : Tokens) : Prop where
  source_eq : tokens.source = source
  delimiters_eq : tokens.delimiters = delimiters
  between : ∃ front, splitAtByte? tokens.position source = some (front, tokens.rest)

namespace FromText

variable {source delimiters : List Char} {tokens : Tokens}

theorem ofText (source delimiters : List Char) :
    FromText source delimiters (ofText source delimiters) where
  source_eq := rfl
  delimiters_eq := rfl
  between := ⟨[], by simp [rest, Tokens.ofText, splitAtByte?]⟩

/-- A call moves the position to the end of its token and of the delimiter behind that. -/
theorem splitAtByte?_add_taken (h : FromText source delimiters tokens)
    {given token after : List Char} (hsplit : split? given tokens.rest = some (token, after)) :
    ∃ front, splitAtByte? (tokens.position + taken given tokens.rest token after) source =
      some (front, after.tail) := by
  obtain ⟨front, hfront⟩ := h.between
  obtain ⟨piece, hpiece⟩ := splitAtByte?_taken hsplit
  exact ⟨front ++ piece, splitAtByte?_add hfront hpiece⟩

theorem rest_apply (h : FromText source delimiters tokens) {call : Call} {token after : List Char}
    (hsplit : split? (call.delimiters tokens) tokens.rest = some (token, after)) :
    (tokens.apply call).2.rest = after.tail := by
  obtain ⟨front, hfront⟩ := h.splitAtByte?_add_taken hsplit
  rw [← h.source_eq] at hfront
  rw [apply_of_some hsplit]
  exact rest_of_splitAtByte? hfront

theorem apply (h : FromText source delimiters tokens) (call : Call) :
    FromText source delimiters (tokens.apply call).2 := by
  cases hsplit : split? (call.delimiters tokens) tokens.rest with
  | none => rwa [apply_of_none hsplit]
  | some run =>
      obtain ⟨front, hfront⟩ := h.splitAtByte?_add_taken hsplit
      have hrest := h.rest_apply hsplit
      rw [apply_of_some hsplit] at hrest ⊢
      exact ⟨h.source_eq, h.delimiters_eq, front, hrest ▸ hfront⟩

theorem run (h : FromText source delimiters tokens) (calls : List Call) :
    FromText source delimiters (tokens.run calls) := by
  induction calls generalizing tokens with
  | nil => exact h
  | cons call calls ih => exact ih (h.apply call)

theorem countP_answers_next (h : FromText source delimiters tokens) (n : Nat) :
    (tokens.answers (List.replicate n .next)).countP Except.isOk = min n tokens.count := by
  induction n generalizing tokens with
  | zero => simp [answers]
  | succ n ih =>
      have hrest := ih (h.apply .next)
      rw [List.replicate_succ, answers, List.countP_cons, hrest]
      cases hsplit : split? tokens.delimiters tokens.rest with
      | none =>
          have happly : tokens.apply .next = _ := apply_of_none hsplit
          rw [happly, count, countIn_of_none hsplit]
          simp [Except.isOk, Except.toBool]
      | some run =>
          have htail := countIn_tail (firstRun_of_split? hsplit).after
          have hleft : (tokens.apply .next).2.rest = run.2.tail := h.rest_apply hsplit
          have happly : tokens.apply .next = _ := apply_of_some hsplit
          rw [happly] at hleft ⊢
          rw [count, count, hleft, countIn_of_some hsplit]
          simp only [htail, Except.isOk, Except.toBool, if_true]
          omega

end FromText

theorem hasMore_iff (tokens : Tokens) : tokens.hasMore = true ↔ 0 < tokens.count := by
  have hmore : tokens.hasMore = false ↔ split? tokens.delimiters tokens.rest = none := by
    rw [split?_eq_none_iff, hasMore, Bool.not_eq_false', List.all_eq_true]
    simp only [List.contains_iff_mem]
  cases hsplit : split? tokens.delimiters tokens.rest with
  | none => simp [count, countIn_of_none hsplit, hmore.mpr hsplit]
  | some taken =>
      have htrue : tokens.hasMore = true := by
        rw [← Bool.not_eq_false, hmore, hsplit]
        nofun
      simp [count, countIn_of_some hsplit, htrue]

/-- After any calls the position is between two characters, and what is left is the end of the
source from there on. The next call fails exactly where no character but its delimiters is left, and
then it leaves everything as it was; else it takes the first run of other characters, and the one
delimiter behind that. The count tells how many calls for the next token will succeed, and there is
more as long as the count is positive. -/
theorem calls_take_first_runs (source delimiters : List Char) (calls : List Call) :
    let tokens := (ofText source delimiters).run calls
    tokens.source = source ∧ tokens.delimiters = delimiters ∧
      (∃ front, splitAtByte? tokens.position source = some (front, tokens.rest) ∧
        source = front ++ tokens.rest ∧
        ∀ call : Call,
          ((∀ c ∈ tokens.rest, c ∈ call.delimiters tokens) →
            tokens.apply call = (.error ⟨byteLength front, byteLength source⟩, tokens)) ∧
          ((∃ c ∈ tokens.rest, c ∉ call.delimiters tokens) →
            ∃ token after position, FirstRun (call.delimiters tokens) tokens.rest token after ∧
              let left : Tokens := { tokens with position, lastDelimiter := after.head? }
              tokens.apply call = (.ok token, left) ∧ left.rest = after.tail)) ∧
      (∀ n, (tokens.answers (List.replicate n .next)).countP Except.isOk = min n tokens.count) ∧
      (tokens.hasMore = true ↔ 0 < tokens.count) := by
  intro tokens
  have hfrom : FromText source delimiters tokens := (FromText.ofText source delimiters).run calls
  obtain ⟨front, hfront⟩ := hfrom.between
  obtain ⟨hsource, hlength⟩ := append_of_splitAtByte? hfront
  refine ⟨hfrom.source_eq, hfrom.delimiters_eq, ⟨front, hfront, hsource, fun call => ⟨?_, ?_⟩⟩,
    hfrom.countP_answers_next, hasMore_iff tokens⟩
  · intro hall
    rw [apply_of_none (split?_eq_none_iff.mpr hall), hfrom.source_eq, hlength]
  · rintro ⟨c, hc, hother⟩
    cases hsplit : split? (call.delimiters tokens) tokens.rest with
    | none => exact absurd (split?_eq_none_iff.mp hsplit c hc) hother
    | some run =>
        have hleft := hfrom.rest_apply hsplit
        rw [apply_of_some hsplit] at hleft
        exact ⟨_, _, _, firstRun_of_split? hsplit, apply_of_some hsplit, hleft⟩

/-- A call with a comma for its delimiter leaves a blank and a letter. With the delimiters of the
tokens the next call takes the letter, and with both for delimiters it fails. -/
theorem calls_take_first_runs_overridden :
    let tokens := (ofText ['é', ',', ' ', 'b'] defaultDelimiters).run [.nextWith [',']]
    tokens.position = 3 ∧ (∃ c ∈ tokens.rest, c ∉ Call.next.delimiters tokens) ∧
      (∃ token after position, FirstRun (Call.next.delimiters tokens) tokens.rest token after ∧
        let left : Tokens := { tokens with position, lastDelimiter := after.head? }
        tokens.apply .next = (.ok token, left) ∧ left.rest = after.tail) ∧
      (∀ c ∈ tokens.rest, c ∈ (Call.nextWith [' ', 'b']).delimiters tokens) ∧
      tokens.apply (.nextWith [' ', 'b']) = (.error ⟨3, 5⟩, tokens) := by
  intro tokens
  obtain ⟨-, -, ⟨front, hfront, -, hcalls⟩, -⟩ :=
    calls_take_first_runs ['é', ',', ' ', 'b'] defaultDelimiters [.nextWith [',']]
  have hsplit : splitAtByte? 3 ['é', ',', ' ', 'b'] = some (['é', ','], [' ', 'b']) := rfl
  obtain rfl : ['é', ','] = front :=
    congrArg Prod.fst (Option.some.inj (hsplit.symm.trans hfront))
  have htakes : ∃ c ∈ tokens.rest, c ∉ Call.next.delimiters tokens :=
    ⟨'b', by decide, by decide⟩
  have hfails : ∀ c ∈ tokens.rest, c ∈ (Call.nextWith [' ', 'b']).delimiters tokens :=
    fun _ hc => hc
  exact ⟨rfl, htakes, (hcalls .next).2 htakes, hfails, (hcalls (.nextWith [' ', 'b'])).1 hfails⟩

end Stencil.Text.Tokens
