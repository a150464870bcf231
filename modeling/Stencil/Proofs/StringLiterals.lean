import Stencil.Proofs.Interpolation
import Stencil.Proofs.MapReading
import Stencil.Proofs.Staying

namespace Stencil.Template

open Reader

def stringLiteral (quote : Char) (s : String) : String :=
  String.ofList (quote :: escape s.toList ++ [quote])

theorem interpolation_plainNodes (content : List Char) :
    interpolation (plainNodes content) = .literal (.text (String.ofList content)) := by
  cases content with
  | nil => rfl
  | cons c rest => simp [interpolation, plainNodes, plainTexts?, String.join]

theorem looksLikeMap_iff {raw : List Char} :
    looksLikeMap raw = true ↔
      ['%', '\x7b'] <+: Text.trim raw ∧ ['\x7d'] <:+ Text.trim raw := by
  simp [looksLikeMap]

theorem parseExpression_singleQuoted (s : String) :
    parseExpression (stringLiteral '\'' s) = .ok (.literal (.text s)) := by
  have hescaped : Escaped '\'' s.toList (escape s.toList) := escaped_escape rfl _
  refine parseExpression_of_expression (.cons rfl _) (disjunction_of_unary fun rest => ?_)
  rw [unary_text _ hescaped, String.ofList_toList]

theorem parseExpression_doubleQuoted {s : String} (hplain : ∀ c ∈ s.toList, isMarker c = false)
    (hmap : looksLikeMap (escape s.toList) = false) :
    parseExpression (stringLiteral '"' s) = .ok (.literal (.text s)) := by
  have hescaped : Escaped '"' s.toList (escape s.toList) := escaped_escape rfl _
  have hread : nodeSequence (.within (maxNesting - 1)) (unescape (escape s.toList)) =
      .done (plainNodes s.toList) [] := by
    rw [hescaped.unescape_eq]
    exact of_wholly_eq_done (wholly_nodeSequence_plain _ hplain)
  have hquoted := ReadsQuoted.template hmap hread
  rw [interpolation_plainNodes, String.ofList_toList] at hquoted
  exact (parseExpression_doubleQuoted_iff hescaped.enclosed).mpr hquoted

/-- Between single quotes every text is read back. Between double quotes markers would begin nodes,
and what looks like a map would be read as one; every other text is read back from there too.
Neither reading goes beyond the closing quote. -/
theorem string_literals_read_back (s : String) :
    (∀ quote, quote = '\'' ∨ quote = '"' → ∀ rest,
      quotedBody quote ((stringLiteral quote s).toList ++ rest) =
        .done (escape s.toList) rest) ∧
      unescape (escape s.toList) = s.toList ∧
      parseExpression (stringLiteral '\'' s) = .ok (.literal (.text s)) ∧
      ('$' ∉ s.toList → '#' ∉ s.toList →
        ¬ (['%', '\x7b'] <+: Text.trim (escape s.toList) ∧
          ['\x7d'] <:+ Text.trim (escape s.toList)) →
        parseExpression (stringLiteral '"' s) = .ok (.literal (.text s))) := by
  refine ⟨fun quote hquote rest => ?_, ?_, parseExpression_singleQuoted s, ?_⟩
  · have hescapable : isEscapable quote = true := by
      rcases hquote with rfl | rfl <;> rfl
    rw [stringLiteral, String.toList_ofList, List.append_assoc]
    exact (escaped_escape hescapable s.toList).quotedBody_eq (quote_ne_backslash hquote) rest
  · have hescaped : Escaped '"' s.toList (escape s.toList) := escaped_escape rfl _
    exact hescaped.unescape_eq
  · intro hdollar hsign hmap
    refine parseExpression_doubleQuoted (fun c hc => ?_) ?_
    · have hdollar' : c ≠ '$' := fun heq => hdollar (heq ▸ hc)
      have hsign' : c ≠ '#' := fun heq => hsign (heq ▸ hc)
      simp [isMarker, hdollar', hsign']
    · rwa [← Bool.not_eq_true, looksLikeMap_iff]

def awkwardText : String :=
  "%\x7b 'it''s' \"\\\\\" \x7d \\"

theorem string_literals_read_back_awkward :
    stringLiteral '\'' "\\" = "'\\\\'" ∧
      '$' ∉ awkwardText.toList ∧ '#' ∉ awkwardText.toList ∧
      ¬ (['%', '\x7b'] <+: Text.trim (escape awkwardText.toList) ∧
        ['\x7d'] <:+ Text.trim (escape awkwardText.toList)) ∧
      parseExpression (stringLiteral '"' awkwardText) =
        .ok (.literal (.text awkwardText)) := by
  have hdollar : '$' ∉ awkwardText.toList := by decide
  have hsign : '#' ∉ awkwardText.toList := by decide
  have hmap : ¬ (['%', '\x7b'] <+: Text.trim (escape awkwardText.toList) ∧
      ['\x7d'] <:+ Text.trim (escape awkwardText.toList)) := by decide
  exact ⟨by decide, hdollar, hsign, hmap,
    (string_literals_read_back awkwardText).2.2.2 hdollar hsign hmap⟩

/-- The text is one map literal with these entries and has only blanks around it: the last brace
closes the first. -/
def IsMapLiteral (inner : Inner) (entries : List MapEntry) (text : List Char) : Prop :=
  ∃ front body back, text = front ++ '%' :: '\x7b' :: (body ++ '\x7d' :: back) ∧
    PlainMap.IsLayoutRun front ∧ PlainMap.IsLayoutRun back ∧
    splitAtBrace 0 none (body ++ '\x7d' :: back) = some (body, back) ∧
    mapEntries inner body = .ok entries

theorem skipLayout_eq_nil_iff {text : List Char} :
    skipLayout text = [] ↔ PlainMap.IsLayoutRun text :=
  List.dropWhile_eq_nil_iff

theorem lexeme_mapLiteral_eq_done_iff {inner : Inner} {entries : List MapEntry}
    {text : List Char} :
    lexeme (mapLiteral inner) text = .done entries [] ↔ IsMapLiteral inner entries text := by
  constructor
  · intro h
    obtain ⟨back, hread, hback⟩ := of_lexeme_eq_done h
    unfold mapLiteral at hread
    split at hread
    · rename_i rest hfront
      split at hread
      · cases hread
      · rename_i body after hsplit
        split at hread
        · rename_i found hentries
          cases hread
          cases append_of_splitAtBrace hsplit
          refine ⟨text.takeWhile Text.isLayout, body, back, ?_, ?_,
            skipLayout_eq_nil_iff.mp hback.symm, hsplit, hentries⟩
          · rw [← hfront]
            exact List.takeWhile_append_dropWhile.symm
          · exact fun c hc => List.mem_takeWhile_imp hc
        · cases hread
    · cases hread
  · rintro ⟨front, body, back, rfl, hfront, hback, hsplit, hentries⟩
    have hread : mapLiteral inner ('%' :: '\x7b' :: (body ++ '\x7d' :: back)) =
        .done entries back := by
      simp only [mapLiteral, hsplit, hentries]
    have hskip : skipLayout (front ++ '%' :: '\x7b' :: (body ++ '\x7d' :: back)) =
        '%' :: '\x7b' :: (body ++ '\x7d' :: back) :=
      Stops.dropWhile_append hfront (.cons rfl _)
    rw [← skipLayout_eq_nil_iff.mpr hback]
    refine lexeme_of_done ?_
    rw [hskip]
    exact hread

/-- A literal whose brace is closed before its end leaves something that is not blank. -/
theorem not_isMapLiteral_of_after {inner : Inner} {entries : List MapEntry}
    {behind body after : List Char} (hsplit : splitAtBrace 0 none behind = some (body, after))
    (hne : after ≠ []) (hend : ['\x7d'] <:+ behind) :
    ¬ IsMapLiteral inner entries ('%' :: '\x7b' :: behind) := by
  rintro ⟨front, body', back, htext, hfront, hback, hsplit', -⟩
  cases front with
  | cons c front =>
      obtain ⟨rfl, -⟩ := List.cons.inj htext
      exact absurd (hfront '%' (List.mem_cons_self ..)) (by decide)
  | nil =>
      cases htext
      cases hsplit'.symm.trans hsplit
      -- the brace at the end of the text is also at the end of what the literal leaves
      have hlast : ['\x7d'] <:+ after := by
        refine List.suffix_of_suffix_length_le hend ⟨body ++ ['\x7d'], by simp⟩ ?_
        exact List.length_pos_iff.mpr hne
      exact absurd (hback '\x7d' (hlast.mem (List.mem_singleton_self _))) (by decide)

theorem trim_of_stops {text : List Char} (hfront : Stops Text.isBlank text)
    (hback : Stops Text.isBlank text.reverse) : Text.trim text = text := by
  rw [Text.trim, Text.trimStart, hfront.dropWhile_eq, Text.trimEnd, hback.dropWhile_eq,
    List.reverse_reverse]

theorem looksLikeMap_of_ends {behind : List Char} (hend : ['\x7d'] <:+ behind) :
    looksLikeMap ('%' :: '\x7b' :: behind) = true := by
  obtain ⟨front, rfl⟩ := hend
  have htrim : Text.trim ('%' :: '\x7b' :: (front ++ ['\x7d'])) =
      '%' :: '\x7b' :: (front ++ ['\x7d']) := by
    refine trim_of_stops (.cons rfl _) ?_
    rw [← List.cons_append, ← List.cons_append, List.reverse_concat]
    exact .cons rfl _
  rw [looksLikeMap_iff, htrim]
  exact ⟨⟨_, rfl⟩, ⟨'%' :: '\x7b' :: front, rfl⟩⟩

/-- What stands between double quotes is a map literal if it looks like one, and a template if not.
What looks like a map literal but is not exactly one, such as two pairs of braces side by side, is
refused and never read as a template. -/
theorem quoted_text_is_map_or_template (label source : String) (hquote : '"' ∉ source.toList)
    (hslash : '\\' ∉ source.toList) :
    let text := source.toList
    let looks := ['%', '\x7b'] <+: Text.trim text ∧ ['\x7d'] <:+ Text.trim text
    (¬ looks → ∀ e, parseExpression ("\"" ++ source ++ "\"") = .ok e ↔
        ∃ t, Limits.inside.parse label source = .ok t ∧ e = interpolation t.nodes) ∧
      (looks → ∀ e, parseExpression ("\"" ++ source ++ "\"") = .ok e ↔
        ∃ entries, e = .map entries ∧ IsMapLiteral (.within (maxNesting - 1)) entries text) ∧
      ∀ behind body after, text = '%' :: '\x7b' :: behind → ['\x7d'] <:+ behind →
        splitAtBrace 0 none behind = some (body, after) → after ≠ [] →
        ∃ error, parseExpression ("\"" ++ source ++ "\"") = .error error := by
  intro text looks
  have hescaped := escaped_self hquote hslash
  have hiff (e : Expr) : parseExpression ("\"" ++ source ++ "\"") = .ok e ↔
      ReadsQuoted (.within (maxNesting - 1)) text e := by
    rw [quoted_eq_ofList]
    exact parseExpression_doubleQuoted_iff hescaped.enclosed
  have hmap (hlooks : looksLikeMap text = true) (e : Expr) :
      parseExpression ("\"" ++ source ++ "\"") = .ok e ↔
        ∃ entries, e = .map entries ∧ IsMapLiteral (.within (maxNesting - 1)) entries text := by
    rw [hiff]
    constructor
    · intro h
      cases h with
      | map _ h => exact ⟨_, rfl, lexeme_mapLiteral_eq_done_iff.mp h⟩
      | template hplain _ => exact absurd (hlooks.symm.trans hplain) nofun
    · rintro ⟨entries, rfl, h⟩
      exact .map hlooks (lexeme_mapLiteral_eq_done_iff.mpr h)
  refine ⟨fun hlooks e => ?_, fun hlooks => hmap (looksLikeMap_iff.mpr hlooks), ?_⟩
  · have hplain : looksLikeMap text = false := by
      rwa [← Bool.not_eq_true, looksLikeMap_iff]
    rw [hiff]
    constructor
    · intro h
      cases h with
      | map hlooks _ => exact absurd (hlooks.symm.trans hplain) nofun
      | template _ h =>
          rw [hescaped.unescape_eq] at h
          exact ⟨_, Limits.inside_parse_eq_ok_iff.mpr ⟨_, h, rfl⟩, rfl⟩
    · rintro ⟨t, ht, rfl⟩
      obtain ⟨found, h, rfl⟩ := Limits.inside_parse_eq_ok_iff.mp ht
      rw [← hescaped.unescape_eq] at h
      exact .template hplain h
  · intro behind body after htext hend hsplit hne
    have hlooks : looksLikeMap text = true := by
      rw [htext]
      exact looksLikeMap_of_ends hend
    cases hparse : parseExpression ("\"" ++ source ++ "\"") with
    | error error => exact ⟨error, rfl⟩
    | ok e =>
        obtain ⟨entries, -, hliteral⟩ := (hmap hlooks e).mp hparse
        rw [htext] at hliteral
        exact absurd hliteral (not_isMapLiteral_of_after hsplit hne hend)

def bracesSource : String :=
  "%\x7b\x7d \x7b\x7d"

theorem quoted_text_is_map_or_template_braces :
    parseExpression ("\"" ++ "a\x7b\x7d" ++ "\"") = .ok (.literal (.text "a\x7b\x7d")) ∧
      parseExpression ("\"" ++ " %\x7b \x7d\t" ++ "\"") = .ok (.map []) ∧
      ∃ error, parseExpression ("\"" ++ bracesSource ++ "\"") = .error error := by
  refine ⟨?_, ?_, ?_⟩
  · have hread := quoted_text_is_map_or_template "t" "a\x7b\x7d" (by decide) (by decide)
    exact (hread.1 (by decide) _).mpr ⟨⟨"t", [.text "a\x7b\x7d"]⟩, rfl, rfl⟩
  · have hread := quoted_text_is_map_or_template "t" " %\x7b \x7d\t" (by decide) (by decide)
    refine (hread.2.1 (by decide) _).mpr ⟨[], rfl, [' '], [' '], ['\t'], rfl, ?_, ?_, rfl, rfl⟩
    · exact List.forall_mem_singleton.mpr rfl
    · exact List.forall_mem_singleton.mpr rfl
  · have hread := quoted_text_is_map_or_template "t" bracesSource (by decide) (by decide)
    exact hread.2.2 "\x7d \x7b\x7d".toList [] " \x7b\x7d".toList rfl (by decide) rfl (by decide)

/-- A template that looks like a map literal at both ends is no expression between double quotes,
though it leaves every level of nesting to spare. -/
theorem braces_refused_between_quotes :
    '"' ∉ bracesSource.toList ∧ '\\' ∉ bracesSource.toList ∧
      ['%', '\x7b'] <+: bracesSource.toList ∧ ['\x7d'] <:+ bracesSource.toList ∧
      splitAtBrace 0 none (bracesSource.toList.drop 2) = some ([], " \x7b\x7d".toList) ∧
      ({ nesting := 0, operators := 0 } : Limits).parse "t" bracesSource =
        .ok { label := "t", nodes := [.text bracesSource] } ∧
      parseExpression ("\"" ++ bracesSource ++ "\"") =
        .error (.invalid "invalid syntax (End of file)" "\x7b\x7d" ⟨1, 6⟩) ∧
      interpolation [.text bracesSource] = .literal (.text bracesSource) :=
  ⟨by decide, by decide, by decide, by decide, rfl, rfl, rfl, rfl⟩

end Stencil.Template
