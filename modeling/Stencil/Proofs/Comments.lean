import Stencil.Proofs.Acceptance

namespace Stencil.Template

open Reader

theorem advances_directiveWord : Advances directiveWord :=
  (advances_char _).bind fun _ => stays_behindSign

theorem advances_directive (d : Directive) : Advances (directive d) := by
  intro text rest value h
  unfold directive at h
  split at h
  · rename_i found middle hword
    split at h
    · cases h
      exact advances_directiveWord hword
    · cases h
  · cases h

theorem advances_comment : Advances comment := by
  intro text rest value h
  unfold comment at h
  split at h
  · rename_i behind
    have hle := List.length_dropWhile_le (fun c => c != '\n' && c != '\r') behind
    split at h <;> rename_i heq
    · cases h
      rw [heq] at hle
      simp only [List.length_cons] at hle ⊢
      omega
    · cases h
      rw [heq] at hle
      simp only [List.length_cons] at hle ⊢
      omega
    · cases h
      exact Nat.succ_pos _
    · cases h
  · rename_i behind
    split at h
    · rename_i after hafter
      cases h
      have hle := (suffix_of_afterBlockComment? hafter).length_le
      simp only [List.length_cons]
      omega
    · cases h
  · cases h

theorem advances_plainText : Advances plainText := by
  intro text rest value h
  cases text with
  | nil => cases h
  | cons c others =>
      cases hc : isMarker c with
      | true =>
          obtain ⟨fault, hmiss⟩ := misses_plainText hc others
          cases hmiss.symm.trans h
      | false =>
          cases (plainText_cons hc others).symm.trans h
          exact Nat.lt_succ_of_le (List.length_dropWhile_le ..)

theorem advances_strayMarker : Advances strayMarker := by
  intro text rest value h
  unfold strayMarker at h
  split at h
  · split at h
    · cases h
      exact Nat.lt_succ_self _
    · cases h
  · cases h

theorem advances_node {inner : Inner} (hinner : inner.Stays) : Advances (node inner) := by
  obtain ⟨behind, hset, hbehind⟩ := hinner.exists_behind_set
  have hsetNode : Advances (setNode inner) := by
    rw [hset]
    exact (advances_directive .set).bind fun _ => hbehind
  have hifNode : Advances (ifNode inner) := (advances_directive .if).bind fun _ => hinner.block
  refine (advances_comment.bind fun _ => .pure _).orElse ?_
  refine Advances.orElse (hsetNode.bind fun _ => .pure _) ?_
  refine Advances.orElse (hifNode.bind fun _ => .pure _) ?_
  refine ((advances_reference hinner).bind fun _ => .pure _).orElse ?_
  exact (advances_plainText.bind fun _ => .pure _).orElse
    (advances_strayMarker.bind fun _ => .pure _)

section

variable {inner : Inner} (hinner : inner.Stays) {text rest : List Char}
include hinner

theorem nodeSequence_of_none (h : node inner text = .done none rest) :
    nodeSequence inner text = nodeSequence inner rest := by
  have hmany := (advances_node hinner).many_of_done (misses_node_nil inner) h
  change Reader.bind (many (node inner)) _ text = Reader.bind (many (node inner)) _ rest
  change _ = Reader.bind (many (node inner)) _ rest at hmany
  simp only [Reader.bind, hmany]
  cases many (node inner) rest <;> rfl

theorem nodeSequence_of_some {n : Node} (h : node inner text = .done (some n) rest) :
    nodeSequence inner text =
      ((fun nodes => mergeTexts (n :: nodes)) <$> nodeSequence inner) rest := by
  have hmany := (advances_node hinner).many_of_done (misses_node_nil inner) h
  change Reader.bind (many (node inner)) _ text =
    Reader.bind (Reader.bind (many (node inner)) _) _ rest
  change _ = Reader.bind (many (node inner)) _ rest at hmany
  simp only [Reader.bind, hmany]
  cases many (node inner) rest with
  | done found final =>
      change Reply.done _ final = Reply.done (mergeTexts (n :: mergeTexts _)) final
      rw [mergeTexts_cons_mergeTexts]
      rfl
  | miss fault => rfl
  | halt fault => rfl

end

theorem dropWhile_line {front : List Char} (hfeed : '\n' ∉ front) (hreturn : '\r' ∉ front)
    (behind : List Char) :
    (front ++ behind).dropWhile (fun c => c != '\n' && c != '\r') =
      behind.dropWhile fun c => c != '\n' && c != '\r' := by
  refine List.dropWhile_append_of_pos fun c hc => ?_
  have hne : c ≠ '\n' := fun heq => hfeed (heq ▸ hc)
  have hne' : c ≠ '\r' := fun heq => hreturn (heq ▸ hc)
  simp [hne, hne']

theorem comment_line {c : List Char} (hfeed : '\n' ∉ c) (hreturn : '\r' ∉ c.dropLast)
    (rest : List Char) : comment ('#' :: '#' :: (c ++ '\n' :: rest)) = .done () rest := by
  by_cases hmem : '\r' ∈ c
  · obtain ⟨front, last, rfl⟩ := c.eq_nil_or_concat'.resolve_left (List.ne_nil_of_mem hmem)
    rw [List.dropLast_concat] at hreturn
    obtain rfl : '\r' = last := by simpa [hreturn] using hmem
    have hline := dropWhile_line (fun h => hfeed (List.mem_append_left _ h)) hreturn
      ('\r' :: '\n' :: rest)
    simp only [comment, List.append_assoc, List.singleton_append, hline]
    rfl
  · simp only [comment, dropWhile_line hfeed hmem]
    rfl

theorem misses_comment_return {front : List Char} (hfeed : '\n' ∉ front) (hreturn : '\r' ∉ front)
    {d : Char} (hne : d ≠ '\n') (behind : List Char) :
    Misses comment ('#' :: '#' :: (front ++ '\r' :: d :: behind)) := by
  have hline : (front ++ '\r' :: d :: behind).dropWhile (fun c => c != '\n' && c != '\r') =
      '\r' :: d :: behind := dropWhile_line hfeed hreturn _
  have hmissing : comment ('#' :: '#' :: (front ++ '\r' :: d :: behind)) =
      missing .expectedWord ('#' :: '#' :: (front ++ '\r' :: d :: behind)) := by
    simp only [comment, hline]
    split
    · rename_i heq
      cases heq
    · rename_i heq
      cases heq
      exact absurd rfl hne
    · rename_i heq
      cases heq
    · rfl
  exact misses_of_eq hmissing

theorem misses_comment_line {c : List Char} (hfeed : '\n' ∉ c) (hreturn : '\r' ∈ c.dropLast)
    (rest : List Char) : Misses comment ('#' :: '#' :: (c ++ '\n' :: rest)) := by
  obtain ⟨most, last, rfl⟩ := c.eq_nil_or_concat'.resolve_left (by rintro rfl; cases hreturn)
  rw [List.dropLast_concat] at hreturn
  obtain ⟨front, others, rfl, hfront⟩ := List.eq_append_cons_of_mem hreturn
  simp only [List.mem_append, List.mem_cons, not_or] at hfeed
  rw [List.append_assoc, List.append_assoc, List.cons_append]
  cases others with
  | nil => exact misses_comment_return hfeed.1.1 hfront (Ne.symm hfeed.2.1) _
  | cons d others =>
      have hne : d ≠ '\n' := fun heq => hfeed.1.2.2 (heq ▸ List.mem_cons_self ..)
      exact misses_comment_return hfeed.1.1 hfront hne _

theorem afterBlockComment?_append {c : List Char} (hend : ¬ ['*', '#'] <:+: c)
    (rest : List Char) : afterBlockComment? (c ++ '*' :: '#' :: rest) = some rest := by
  induction c with
  | nil => rfl
  | cons d others ih =>
      have hothers := ih fun h => hend (h.trans (List.infix_cons List.infix_rfl))
      rw [List.cons_append, afterBlockComment?, hothers]
      rintro behind rfl hbehind
      cases others with
      | nil => cases hbehind
      | cons e others =>
          cases hbehind
          exact hend (List.prefix_append ['*', '#'] others).isInfix

theorem comment_block {c : List Char} (hend : ¬ ['*', '#'] <:+: c) (rest : List Char) :
    comment ('#' :: '*' :: (c ++ '*' :: '#' :: rest)) = .done () rest := by
  simp only [comment, afterBlockComment?_append hend]

theorem node_comment (inner : Inner) {text rest : List Char} (h : comment text = .done () rest) :
    node inner text = .done none rest := by
  refine orElse_of_done ?_
  rw [bind_of_done h]
  rfl

theorem node_sign (inner : Inner) {text : List Char} (h : Misses comment ('#' :: '#' :: text)) :
    node inner ('#' :: '#' :: text) = .done (some (.text "#")) ('#' :: text) := by
  have hword : Misses directiveWord ('#' :: '#' :: text) := ⟨_, rfl⟩
  have hreference : Misses (reference inner) ('#' :: '#' :: text) :=
    misses_reference inner (by simp)
  rw [node_of_misses inner h (hword.directive .set) (hword.directive .if), textualNode,
    (hreference.bind _).orElse_eq, ((misses_plainText rfl _).bind _).orElse_eq,
    bind_of_done (strayMarker_of_not_atBlockEnd rfl (atBlockEnd_of_misses hword))]
  rfl

/-- What is read behind a comment is what would be read without the comment. Only a line comment
with a carriage return before its last character is none: it is read as text behind a number
sign. -/
theorem comments_leave_nothing (levels : Nat) (c rest : List Char) :
    ('\n' ∉ c → '\r' ∉ c.dropLast →
        nodeSequence (Inner.within levels) ('#' :: '#' :: (c ++ '\n' :: rest)) =
          nodeSequence (Inner.within levels) rest) ∧
      ('\n' ∉ c → '\r' ∈ c.dropLast →
        nodeSequence (Inner.within levels) ('#' :: '#' :: (c ++ '\n' :: rest)) =
          ((fun nodes => mergeTexts (.text "#" :: nodes)) <$> nodeSequence (Inner.within levels))
            ('#' :: (c ++ '\n' :: rest))) ∧
      (¬ ['*', '#'] <:+: c →
        nodeSequence (Inner.within levels) ('#' :: '*' :: (c ++ '*' :: '#' :: rest)) =
          nodeSequence (Inner.within levels) rest) := by
  have hinner := Inner.stays_within levels
  refine ⟨fun hfeed hreturn => ?_, fun hfeed hreturn => ?_, fun hend => ?_⟩
  · exact nodeSequence_of_none hinner (node_comment _ (comment_line hfeed hreturn rest))
  · exact nodeSequence_of_some hinner (node_sign _ (misses_comment_line hfeed hreturn rest))
  · exact nodeSequence_of_none hinner (node_comment _ (comment_block hend rest))

/-- A line comment full of markers, one that a carriage return splits, and a block comment over
two lines. -/
theorem comments_leave_nothing_mixed :
    readNodes "##$a #if ##\r\nb".toList = readNodes "b".toList ∧
      readNodes "##a\rb\nc".toList =
        ((fun nodes => mergeTexts (.text "#" :: nodes)) <$> readNodes) "#a\rb\nc".toList ∧
      readNodes "#*#if\n**#\n".toList = readNodes "\n".toList :=
  ⟨(comments_leave_nothing maxNesting "$a #if ##\r".toList "b".toList).1 (by decide) (by decide),
    (comments_leave_nothing maxNesting "a\rb".toList "c".toList).2.1 (by decide) (by decide),
    (comments_leave_nothing maxNesting "#if\n*".toList "\n".toList).2.2 (by decide)⟩

/-- A carriage return inside a line comment brings all of the comment into the nodes. -/
theorem comment_with_return_shown :
    '\n' ∉ "a\rb".toList ∧
      readNodes ("##".toList ++ "a\rb".toList ++ "\n".toList ++ "c".toList) =
        .done [.text "##a\rb\nc"] [] ∧
      readNodes "c".toList = .done [.text "c"] [] ∧
      readNodes ("##".toList ++ "a\rb".toList ++ "\n".toList ++ "c".toList) ≠
        readNodes "c".toList := by
  have hcomment : readNodes ("##".toList ++ "a\rb".toList ++ "\n".toList ++ "c".toList) =
      .done [.text "##a\rb\nc"] [] := rfl
  have hrest : readNodes "c".toList = .done [.text "c"] [] := rfl
  refine ⟨by decide, hcomment, hrest, ?_⟩
  rw [hcomment, hrest]
  simp

end Stencil.Template
