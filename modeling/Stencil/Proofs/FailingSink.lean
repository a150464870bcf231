import Stencil.Proofs.Strictness

/-! A piece that the sink does not take ends the render. The pieces that nodes hand to a sink which
takes everything are recorded, each with what the render had come to by then. With any other sink
the render goes the same way up to the first piece that is not taken, and it ends there: what it
leaves is what the record holds for that piece. -/

namespace Stencil

open Template

/-- A piece that is handed to the sink, and what the render has come to before it. -/
structure Write where
  piece : String
  found : Progress

/-- A run with a sink that takes everything, and all that was handed to the sink on the way. -/
structure Course (α : Type) where
  writes : List Write
  result : Except EvalError α
  reached : Progress

/-- What comes after a failed run is not come to. -/
def Course.andThen {α β : Type} (c : Course α) (f : α → Progress → Course β) : Course β :=
  match c.result with
  | .error error => ⟨c.writes, .error error, c.reached⟩
  | .ok value =>
      let next := f value c.reached
      { next with writes := c.writes ++ next.writes }

structure Recording (α : Type) where
  run : Progress → Course α

namespace Recording

variable {α β : Type}

instance : Monad Recording where
  pure value := ⟨fun p => ⟨[], .ok value, p⟩⟩
  bind x f := ⟨fun p => (x.run p).andThen fun value => (f value).run⟩

theorem run_bind (x : Recording α) (f : α → Recording β) (p : Progress) :
    (x >>= f).run p = (x.run p).andThen fun value => (f value).run :=
  rfl

def silent (x : Rendering α) : Recording α :=
  ⟨fun p => ⟨[], (x p).1, (x p).2⟩⟩

def write (piece : String) : Recording Unit :=
  ⟨fun p => ⟨[⟨piece, p⟩], .ok (), { p with written := piece :: p.written }⟩⟩

def writeReference (setting : Setting) (r : Reference) (value : Value) : Recording Unit := do
  if !value.isNull then
    write (← silent (Rendering.ofEval (Eval.textOf setting value)))
  else if r.quiet then
    return
  else if setting.strict then
    silent (throw (.undefinedReference r.literal))
  else
    write r.literal

end Recording

mutual

def Template.recordNodes (setting : Setting) : List Node → Recording Unit
  | [] => return
  | .text content :: rest => do
      Recording.write content
      recordNodes setting rest
  | .reference r :: rest => do
      let value ← Recording.silent (Rendering.absorbing (r.eval setting))
      Recording.writeReference setting r value
      recordNodes setting rest
  | .set target value :: rest => do
      let value ← Recording.silent (Rendering.absorbing (value.eval setting))
      Recording.silent (Rendering.bind target value)
      recordNodes setting rest
  | .conditional branches none :: rest => do
      let _ ← recordBranches setting branches
      recordNodes setting rest
  | .conditional branches (some otherwise) :: rest => do
      if !(← recordBranches setting branches) then recordNodes setting otherwise
      recordNodes setting rest

def Template.recordBranches (setting : Setting) : List Branch → Recording Bool
  | [] => return false
  | .mk condition body :: rest => do
      if (← Recording.silent (Rendering.absorbing (condition.eval setting))).isTruthy then
        recordNodes setting body
        return true
      else recordBranches setting rest

end

def Write.refusedBy (sink : Sink) (w : Write) : Bool :=
  !sink.admits w.found.written w.piece

/-- What the run comes to with the sink: at the first write that it refuses the run is over. -/
def Course.under {α : Type} (sink : Sink) (c : Course α) : Except EvalError α × Progress :=
  match c.writes.find? (Write.refusedBy sink) with
  | some w => (.error .output, w.found)
  | none => (c.result, c.reached)

/-- `InARow before writes after`: each of the writes finds what was written before all of them and
the pieces of those ahead of it. -/
inductive InARow : List String → List Write → List String → Prop where
  | nil (before : List String) : InARow before [] before
  | cons (w : Write) {rest : List Write} {after : List String} :
      InARow (w.piece :: w.found.written) rest after → InARow w.found.written (w :: rest) after

namespace InARow

variable {before after : List String} {writes : List Write}

theorem append {last : List String} {more : List Write} (h : InARow before writes after)
    (hmore : InARow after more last) : InARow before (writes ++ more) last := by
  induction h with
  | nil before => exact hmore
  | cons w _ ih => exact (ih hmore).cons w

theorem after_eq (h : InARow before writes after) :
    after = (writes.map Write.piece).reverse ++ before := by
  induction h with
  | nil before => rfl
  | cons w _ ih =>
      rw [ih, List.map_cons, List.reverse_cons, List.append_assoc]
      rfl

theorem found_eq (h : InARow before writes after) {k : Nat} {w : Write}
    (hw : writes[k]? = some w) :
    w.found.written = ((writes.map Write.piece).take k).reverse ++ before := by
  induction h generalizing k with
  | nil before => cases hw
  | cons w _ ih =>
      cases k with
      | zero =>
          cases hw
          rfl
      | succ k =>
          rw [ih hw, List.map_cons, List.take_succ_cons, List.reverse_cons, List.append_assoc]
          rfl

end InARow

/-- The recording is that of the rendering, whatever sink this one writes to. -/
structure Recording.Records {α : Type} (y : Recording α) (x : Sink → Rendering α) : Prop where
  under : ∀ sink p, x sink p = (y.run p).under sink
  inARow : ∀ p, InARow p.written (y.run p).writes (y.run p).reached.written

theorem Course.under_andThen {α β : Type} {sink : Sink} {c : Course α}
    {f : α → Progress → Course β} :
    (c.andThen f).under sink =
      match c.under sink with
      | (.ok value, after) => (f value after).under sink
      | (.error error, after) => (.error error, after) := by
  obtain ⟨writes, result, reached⟩ := c
  cases result with
  | error error =>
      simp only [andThen, under]
      cases writes.find? (Write.refusedBy sink) <;> rfl
  | ok value =>
      simp only [andThen, under, List.find?_append]
      cases writes.find? (Write.refusedBy sink) <;> rfl

namespace Recording.Records

variable {α β : Type}

theorem silent {x : Rendering α} (h : ∀ p, (x p).2.written = p.written) :
    Records (Recording.silent x) fun _ => x where
  under _ _ := rfl
  inARow p := by
    have hnil := InARow.nil p.written
    rw [← h p] at hnil ⊢
    exact hnil

theorem pure (value : α) : Records (Pure.pure value) fun _ => Pure.pure value where
  under _ _ := rfl
  inARow p := .nil p.written

theorem write (piece : String) : Records (Recording.write piece) (Rendering.write · piece) where
  under sink p := by
    cases hadmits : sink.admits p.written piece <;>
      simp [Rendering.write, Recording.write, Course.under, Write.refusedBy, hadmits]
  inARow p := .cons ⟨piece, p⟩ (.nil _)

theorem bind {y : Recording α} {x : Sink → Rendering α} {f : α → Recording β}
    {g : Sink → α → Rendering β} (h : Records y x)
    (hnext : ∀ value, Records (f value) fun sink => g sink value) :
    Records (y >>= f) fun sink => x sink >>= g sink where
  under sink p := by
    rw [Rendering.bind_apply, run_bind, Course.under_andThen, h.under sink p]
    rcases (y.run p).under sink with ⟨error | value, after⟩
    · rfl
    · exact (hnext value).under sink after
  inARow p := by
    have hfirst := h.inARow p
    rw [run_bind]
    generalize y.run p = c at hfirst
    obtain ⟨writes, result, reached⟩ := c
    cases result with
    | error error => exact hfirst
    | ok value => exact hfirst.append ((hnext value).inARow reached)

theorem writeReference (setting : Setting) (r : Reference) (value : Value) :
    Records (Recording.writeReference setting r value)
      (Rendering.writeReference setting · r value) := by
  simp only [Recording.writeReference, Rendering.writeReference]
  split
  · exact (silent fun _ => rfl).bind write
  · split
    · exact pure ()
    · split
      · exact silent fun _ => rfl
      · exact write r.literal

mutual

theorem nodes (setting : Setting) :
    (nodes : List Node) → Records (recordNodes setting nodes) (renderNodes setting · nodes)
  | [] => by
      simp only [recordNodes, renderNodes]
      exact pure ()
  | .text content :: rest => by
      simp only [recordNodes, renderNodes]
      exact (write content).bind fun _ => nodes setting rest
  | .reference r :: rest => by
      simp only [recordNodes, renderNodes]
      exact (silent (Rendering.written_absorbing _)).bind fun value =>
        (writeReference setting r value).bind fun _ => nodes setting rest
  | .set target value :: rest => by
      simp only [recordNodes, renderNodes]
      exact (silent (Rendering.written_absorbing _)).bind fun found =>
        (silent fun _ => rfl).bind fun _ => nodes setting rest
  | .conditional branches none :: rest => by
      simp only [recordNodes, renderNodes]
      exact (ifBranches setting branches).bind fun _ => nodes setting rest
  | .conditional branches (some otherwise) :: rest => by
      simp only [recordNodes, renderNodes]
      refine (ifBranches setting branches).bind fun taken => ?_
      split
      · exact (nodes setting otherwise).bind fun _ => nodes setting rest
      · exact nodes setting rest

theorem ifBranches (setting : Setting) :
    (branches : List Branch) →
      Records (recordBranches setting branches) (renderBranches setting · branches)
  | [] => by
      simp only [recordBranches, renderBranches]
      exact pure false
  | .mk condition body :: rest => by
      simp only [recordBranches, renderBranches]
      refine (silent (Rendering.written_absorbing _)).bind fun value => ?_
      split
      · exact (nodes setting body).bind fun _ => pure true
      · exact ifBranches setting rest

end

end Recording.Records

/-- The sink takes the first `k` of the pieces and not the next one. -/
structure Sink.FailsAt (sink : Sink) (k : Nat) (pieces : List String) : Prop where
  takes : ∀ i < k, ∀ piece, pieces[i]? = some piece →
    sink.admits (pieces.take i).reverse piece = true
  refuses : ∀ piece, pieces[k]? = some piece → sink.admits (pieces.take k).reverse piece = false

def Sink.ofCount (k : Nat) : Sink :=
  { admits := fun written _ => written.length < k }

theorem Sink.failsAt_ofCount (k : Nat) (pieces : List String) : (ofCount k).FailsAt k pieces where
  takes i hi _ _ := by
    simp only [ofCount, List.length_reverse, List.length_take, decide_eq_true_eq]
    omega
  refuses piece hpiece := by
    have hlt : k < pieces.length := (List.getElem?_eq_some_iff.mp hpiece).1
    simp only [ofCount, List.length_reverse, List.length_take, decide_eq_false_iff_not]
    omega

section

variable {sink : Sink} {k : Nat} {writes : List Write} {after : List String}
  (hrow : InARow [] writes after)
include hrow

theorem refusedBy_eq_not_admits {i : Nat} {w : Write} (hw : writes[i]? = some w) :
    w.refusedBy sink =
      !sink.admits ((writes.map Write.piece).take i).reverse w.piece := by
  rw [Write.refusedBy, hrow.found_eq hw, List.append_nil]

variable (hsink : sink.FailsAt k (writes.map Write.piece))
include hsink

theorem refusedBy_eq_false {i : Nat} {w : Write} (hw : writes[i]? = some w) (hi : i < k) :
    w.refusedBy sink = false := by
  have hpiece : (writes.map Write.piece)[i]? = some w.piece := by simp [hw]
  rw [refusedBy_eq_not_admits hrow hw, hsink.takes i hi _ hpiece]
  rfl

theorem find?_refusedBy_eq_none (h : writes.length ≤ k) :
    writes.find? (Write.refusedBy sink) = none := by
  rw [List.find?_eq_none]
  intro w hmem
  obtain ⟨i, hi, rfl⟩ := List.mem_iff_getElem.mp hmem
  simp [refusedBy_eq_false hrow hsink (List.getElem?_eq_getElem hi) (by omega)]

theorem find?_refusedBy_eq_some {w : Write} (hw : writes[k]? = some w) :
    writes.find? (Write.refusedBy sink) = some w := by
  have hpiece : (writes.map Write.piece)[k]? = some w.piece := by simp [hw]
  obtain ⟨hlt, hget⟩ := List.getElem?_eq_some_iff.mp hw
  rw [List.find?_eq_some_iff_getElem]
  refine ⟨?_, k, hlt, hget, ?_⟩
  · rw [refusedBy_eq_not_admits hrow hw, hsink.refuses _ hpiece]
    rfl
  · intro i hi
    have hearlier : writes[i]? = some writes[i] := List.getElem?_eq_getElem (by omega)
    simp [refusedBy_eq_false hrow hsink hearlier hi]

end

/-- A render to a sink that takes everything is recorded: here are its pieces, and what it came to
before each of them. A sink that takes the first `k` pieces and not the next one, such as one that
counts to `k`, makes no difference if there are no more than `k`. Else the render ends as a failure
of the sink, whatever operand errors were noted before, with those `k` pieces and with the bindings
as they were before the next one, even if the sink would take a later piece again. -/
theorem failing_sink_ends_render (setting : Setting) (sink : Sink) (nodes : List Node)
    (scope : Scope) (k : Nat) :
    let free := renderWith setting .unlimited nodes scope
    let course := (recordNodes setting nodes).run (.start scope)
    renderNodes setting .unlimited nodes (.start scope) = (course.result, course.reached) ∧
    free.pieces = course.writes.map Write.piece ∧
    (Sink.ofCount k).FailsAt k free.pieces ∧
    (sink.FailsAt k free.pieces →
      (free.pieces.length ≤ k → renderWith setting sink nodes scope = free) ∧
      (k < free.pieces.length → ∃ w, course.writes[k]? = some w ∧
        w.found.written = (free.pieces.take k).reverse ∧
        renderWith setting sink nodes scope = {
          result := .error .output
          pieces := free.pieces.take k
          context := w.found.scope.context
          cache := w.found.scope.cache })) := by
  intro free course
  have hrecords := Recording.Records.nodes setting nodes
  have hrow : InARow [] course.writes course.reached.written := hrecords.inARow (.start scope)
  have hunder : ∀ sink, renderNodes setting sink nodes (.start scope) = course.under sink :=
    fun sink => hrecords.under sink (.start scope)
  have hfree : renderNodes setting .unlimited nodes (.start scope) =
      (course.result, course.reached) := by
    have hnone : course.writes.find? (Write.refusedBy .unlimited) = none :=
      List.find?_eq_none.mpr fun _ _ => Bool.false_ne_true
    rw [hunder, Course.under, hnone]
  have hpieces : free.pieces = course.writes.map Write.piece := by
    simp only [free, renderWith, hfree, hrow.after_eq, List.append_nil, List.reverse_reverse]
  refine ⟨hfree, hpieces, Sink.failsAt_ofCount k _, fun hsink => ?_⟩
  rw [hpieces] at hsink ⊢
  rw [List.length_map]
  constructor
  · intro hlength
    have hsame : renderNodes setting sink nodes (.start scope) =
        renderNodes setting .unlimited nodes (.start scope) := by
      rw [hfree, hunder, Course.under, find?_refusedBy_eq_none hrow hsink hlength]
    simp only [free, renderWith, hsame]
  · intro hlength
    have hw : course.writes[k]? = some course.writes[k] := List.getElem?_eq_getElem hlength
    have hfound := hrow.found_eq hw
    rw [List.append_nil] at hfound
    have hstopped : renderNodes setting sink nodes (.start scope) =
        (.error .output, course.writes[k].found) := by
      rw [hunder, Course.under, find?_refusedBy_eq_some hrow hsink hw]
    refine ⟨course.writes[k], hw, hfound, ?_⟩
    simp only [renderWith, hstopped, hfound, List.reverse_reverse]

def roomy : List Node :=
  [.set "x" (.arithmetic .multiply (.literal (.text "a")) (.literal (.boolean true))),
    .conditional [.mk (.literal (.boolean true))
      [.text "one", .set "y" (.literal (.text "second")), .reference (.mk false "y" [] "$y"),
        .set "x" (.literal (.text "later"))]] none,
    .text "3"]

abbrev roomyOutcome (sink : Sink) : Outcome :=
  renderWith { registry := .empty, strict := false } sink roomy
    { context := .empty, cache := .empty 1 Nat.one_pos }

def Context.shown (c : Context) : List (String × String) :=
  c.bindings.map fun (name, value) => (name, value.canonical)

theorem failing_sink_ends_render_short :
    let sink := Sink.ofByteLimit 4
    (roomyOutcome .unlimited).pieces = ["one", "second", "3"] ∧
    (roomyOutcome .unlimited).context.shown = [("x", "later"), ("y", "second")] ∧
    sink.FailsAt 1 (roomyOutcome .unlimited).pieces ∧ sink.admits ["one"] "3" = true ∧
    (roomyOutcome sink).result = .error .output ∧ (roomyOutcome sink).pieces = ["one"] ∧
    (roomyOutcome sink).context.shown = [("x", ""), ("y", "second")] := by
  intro sink
  have hpieces : (roomyOutcome .unlimited).pieces = ["one", "second", "3"] := by decide +kernel
  have hsink : sink.FailsAt 1 (roomyOutcome .unlimited).pieces := by
    rw [hpieces]
    refine ⟨fun i hi piece hpiece => ?_, fun piece hpiece => ?_⟩
    · obtain rfl : i = 0 := by omega
      cases hpiece
      decide
    · cases hpiece
      decide
  have hlength : 1 < (roomyOutcome .unlimited).pieces.length := by
    rw [hpieces]
    decide
  have htaken : (roomyOutcome .unlimited).pieces.take 1 = ["one"] := by
    rw [hpieces]
    rfl
  obtain ⟨-, -, -, hends⟩ := failing_sink_ends_render _ sink roomy _ 1
  obtain ⟨w, hw, -, hrender⟩ := (hends hsink).2 hlength
  have htext := congrArg Outcome.pieces hrender
  have hcontext := congrArg Outcome.context hrender
  dsimp only at htext hcontext
  have hfound := congrArg (Option.map fun w => w.found.scope.context.shown) hw
  have hshown : some w.found.scope.context.shown = some [("x", ""), ("y", "second")] :=
    hfound.symm.trans (by decide +kernel)
  refine ⟨hpieces, by decide +kernel, hsink, by decide, congrArg Outcome.result hrender, ?_, ?_⟩
  · exact htext.trans htaken
  · exact (congrArg Context.shown hcontext).trans (Option.some.inj hshown)

end Stencil
