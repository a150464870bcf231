import Stencil.Proofs.Entries
import Stencil.Proofs.Nodes
import Stencil.Proofs.Numerals
import Stencil.Render.Evaluate

namespace Stencil

open Template

theorem Eval.bind_of_ok {α β : Type} {e : Eval α} {f : α → Eval β} {scope after : Scope} {value : α}
    (h : e scope = (.ok value, after)) : (e >>= f) scope = f value after := by
  change (ExceptT.bind e f) scope = _
  simp only [ExceptT.bind, ExceptT.mk, bind, StateT.bind, h, ExceptT.bindCont]

theorem Eval.ofRendering_plainNodes (setting : Setting) (content : List Char) (scope : Scope) :
    Eval.ofRendering (renderNodes setting .unlimited (plainNodes content)) scope =
      (.ok (String.ofList content), scope) := by
  cases content with
  | nil => rfl
  | cons c rest =>
      have hrender : renderNodes setting .unlimited (plainNodes (c :: rest)) (.start scope) =
          (.ok (), { Progress.start scope with written := [String.ofList (c :: rest)] }) := by
        simp only [plainNodes, renderNodes]
        rfl
      have htext : String.join [String.ofList (c :: rest)] = String.ofList (c :: rest) := by
        simp [String.join]
      simp only [Eval.ofRendering, hrender]
      exact congrArg (fun text => (Except.ok text, scope)) htext

namespace Template

inductive Scalar where
  | text (content : List Char) (hplain : ∀ c ∈ content, isMarker c = false)
  | integer (n : IntegerLiteral)
  | boolean (value : Bool)

namespace Scalar

def value : Scalar → Value
  | .text content _ => .text (String.ofList content)
  | .integer n => .number n.number
  | .boolean value => .boolean value

def literal : Scalar → MapValue
  | .text content _ => .text (plainNodes content)
  | .integer n => .number n.number
  | .boolean value => .boolean value

inductive Written : Scalar → List Char → Prop where
  | text {quote : Char} {content raw : List Char} (hplain : ∀ c ∈ content, isMarker c = false)
      (hquote : quote = '\'' ∨ quote = '"') (h : Escaped quote content raw) :
      Written (.text content hplain) (quote :: raw ++ [quote])
  | integer (n : IntegerLiteral) : Written (.integer n) n.spelling
  | boolean (value : Bool) : Written (.boolean value) (toString value).toList

def write : Scalar → List Char
  | .text content _ => '\'' :: escape content ++ ['\'']
  | .integer n => n.spelling
  | .boolean value => (toString value).toList

theorem written_write (s : Scalar) : s.Written s.write := by
  cases s with
  | text content hplain => exact .text hplain (.inl rfl) (escaped_escape rfl content)
  | integer n => exact .integer n
  | boolean value => exact .boolean value

end Scalar

/-- Entries in their order; a value is a scalar or again a map. -/
inductive PlainMap where
  | nil
  | scalar (key : Name) (value : Scalar) (rest : PlainMap)
  | nested (key : Name) (value rest : PlainMap)

namespace PlainMap

def entries : PlainMap → Entries Value
  | .nil => []
  | .scalar key value rest => (key.text, value.value) :: rest.entries
  | .nested key value rest => (key.text, .map value.entries) :: rest.entries

def literal : PlainMap → List MapEntry
  | .nil => []
  | .scalar key value rest => .mk key.text value.literal :: rest.literal
  | .nested key value rest => .mk key.text (.map value.literal) :: rest.literal

def depth : PlainMap → Nat
  | .nil => 0
  | .scalar _ _ rest => rest.depth
  | .nested _ value rest => max (value.depth + 1) rest.depth

def keys (m : PlainMap) : List String :=
  m.entries.map Prod.fst

def Distinct : PlainMap → Prop
  | .nil => True
  | .scalar key _ rest => key.text ∉ rest.keys ∧ rest.Distinct
  | .nested key value rest => key.text ∉ rest.keys ∧ value.Distinct ∧ rest.Distinct

def IsLayoutRun (text : List Char) : Prop :=
  ∀ c ∈ text, Text.isLayout c = true

/-- What may stand before an entry: blanks before the first, and before any other one blanks or a
comma, with or without blanks. -/
inductive Gap : Bool → List Char → Prop where
  | leading {blanks : List Char} (h : IsLayoutRun blanks) : Gap true blanks
  | blanks {blanks : List Char} (h : IsLayoutRun blanks) (hne : blanks ≠ []) : Gap false blanks
  | comma {before after : List Char} (hbefore : IsLayoutRun before) (hafter : IsLayoutRun after) :
      Gap false (before ++ ',' :: after)

/-- `Written first m text`: the entries of the map may be written as `text`, as the first ones of
a map or behind others. -/
inductive Written : Bool → PlainMap → List Char → Prop where
  | nil (first : Bool) {blanks : List Char} (h : IsLayoutRun blanks) : Written first .nil blanks
  | scalar {first : Bool} {key : Name} {value : Scalar} {rest : PlainMap}
      {gap before after valueText restText : List Char} (hgap : Gap first gap)
      (hbefore : IsLayoutRun before) (hafter : IsLayoutRun after)
      (hvalue : value.Written valueText) (hrest : Written false rest restText) :
      Written first (.scalar key value rest)
        (gap ++ (key.val ++ (before ++ '=' :: (after ++ (valueText ++ restText)))))
  | nested {first : Bool} {key : Name} {value rest : PlainMap}
      {gap before after valueText restText : List Char} (hgap : Gap first gap)
      (hbefore : IsLayoutRun before) (hafter : IsLayoutRun after)
      (hvalue : Written true value valueText) (hrest : Written false rest restText) :
      Written first (.nested key value rest)
        (gap ++ (key.val ++ (before ++ '=' :: (after ++ ('\x7b' :: valueText ++ ['\x7d'] ++
          restText)))))

def write : PlainMap → Bool → List Char
  | .nil, _ => []
  | .scalar key value rest, first =>
      (if first then [] else [',']) ++ (key.val ++ '=' :: (value.write ++ rest.write false))
  | .nested key value rest, first =>
      (if first then [] else [',']) ++
        (key.val ++ '=' :: ('\x7b' :: value.write true ++ ['\x7d'] ++ rest.write false))

theorem gap_write (first : Bool) : Gap first (if first then [] else [',']) := by
  have hnil : IsLayoutRun [] := fun _ h => nomatch h
  cases first with
  | true => exact .leading hnil
  | false => exact .comma hnil hnil

theorem written_write (m : PlainMap) (first : Bool) : Written first m (m.write first) := by
  have hnil : IsLayoutRun [] := fun _ h => nomatch h
  induction m generalizing first with
  | nil => exact .nil first hnil
  | scalar key value rest ih =>
      exact .scalar (gap_write first) hnil hnil value.written_write (ih false)
  | nested key value rest ihvalue ih =>
      exact .nested (gap_write first) hnil hnil (ihvalue true) (ih false)

end PlainMap

theorem Scalar.eval_literal (setting : Setting) (s : Scalar) (scope : Scope) :
    s.literal.eval setting scope = (.ok s.value, scope) := by
  cases s with
  | text content hplain =>
      rw [literal, MapValue.eval,
        Eval.bind_of_ok (Eval.ofRendering_plainNodes setting content scope)]
      rfl
  | integer n => rfl
  | boolean value => rfl

namespace PlainMap

theorem evalEntries_cons (setting : Setting) {done : Entries Value} {key : String}
    {found : MapValue} {value : Value} {scope : Scope} (rest : List MapEntry)
    (hvalue : found.eval setting scope = (.ok value, scope))
    (hnew : key ∉ done.map Prod.fst) :
    evalEntries setting done (.mk key found :: rest) scope =
      evalEntries setting (done ++ [(key, value)]) rest scope := by
  rw [evalEntries, Eval.bind_of_ok hvalue, Entries.put_of_not_mem hnew]

theorem not_mem_concat {key : String} {keys : List String} {done : Entries Value}
    (hkey : key ∉ keys) (hdone : ∀ other ∈ keys, other ∉ done.map Prod.fst) (value : Value) :
    ∀ other ∈ keys, other ∉ (done ++ [(key, value)]).map Prod.fst := by
  intro other hmem
  simp only [List.map_append, List.map_cons, List.map_nil, List.mem_append, List.mem_singleton,
    not_or]
  refine ⟨hdone other hmem, ?_⟩
  intro heq
  cases heq
  exact hkey hmem

/-- Entries are put behind those already there, if these have other keys. -/
theorem evalEntries_literal (setting : Setting) {m : PlainMap} (h : m.Distinct)
    {done : Entries Value} (hdone : ∀ key ∈ m.keys, key ∉ done.map Prod.fst) (scope : Scope) :
    evalEntries setting done m.literal scope = (.ok (done ++ m.entries), scope) := by
  induction m generalizing done with
  | nil =>
      simp only [literal, evalEntries, entries, List.append_nil]
      rfl
  | scalar key value rest ih =>
      obtain ⟨hkey, hrest⟩ := h
      obtain ⟨hnew, hothers⟩ := List.forall_mem_cons.mp hdone
      rw [literal, evalEntries_cons setting _ (value.eval_literal setting scope) hnew,
        ih hrest (not_mem_concat hkey hothers _), List.append_assoc]
      rfl
  | nested key value rest ihvalue ih =>
      obtain ⟨hkey, hvalue, hrest⟩ := h
      obtain ⟨hnew, hothers⟩ := List.forall_mem_cons.mp hdone
      have heval : (MapValue.map value.literal).eval setting scope =
          (.ok (.map value.entries), scope) := by
        rw [MapValue.eval, Eval.bind_of_ok (ihvalue hvalue (fun _ _ => List.not_mem_nil))]
        rfl
      rw [literal, evalEntries_cons setting _ heval hnew,
        ih hrest (not_mem_concat hkey hothers _), List.append_assoc]
      rfl
end PlainMap
end Template

end Stencil
