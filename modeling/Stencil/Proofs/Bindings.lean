import Stencil.Proofs.Entries
import Stencil.Proofs.History

namespace Stencil

theorem Context.get?_put (c : Context) (name other : String) (value : Value) :
    (c.put name value).get? other = if other = name then some value else c.get? other :=
  Entries.find?_putOrdered name other value c.bindings

/-- Bindings in the course of two renders that start from `c` and `c'`: the names that are read are
bound alike, and every other one is bound alike or still as it was in both. -/
structure Context.Agree (reads : String → Prop) (c c' b b' : Context) : Prop where
  read {name : String} : reads name → b.get? name = b'.get? name
  kept (name : String) :
    b.get? name = b'.get? name ∨ b.get? name = c.get? name ∧ b'.get? name = c'.get? name

theorem Context.Agree.start {reads : String → Prop} {c c' : Context}
    (h : ∀ name, reads name → c.get? name = c'.get? name) : Agree reads c c' c c' where
  read := h _
  kept _ := .inr ⟨rfl, rfl⟩

theorem Context.Agree.put {reads : String → Prop} {c c' b b' : Context}
    (h : Agree reads c c' b b') (name : String) (value : Value) :
    Agree reads c c' (b.put name value) (b'.put name value) where
  read hread := by rw [get?_put, get?_put, h.read hread]
  kept other := by
    simp only [get?_put]
    split
    · exact .inl rfl
    · exact h.kept other

structure Scope.Agree (r : Registry) (reads : String → Prop) (c c' : Context)
    (s s' : Scope) : Prop where
  context : Context.Agree reads c c' s.context s'.context
  left : s.cache.Sound r
  right : s'.cache.Sound r

theorem Scope.lasting_agree {setting : Setting} (hr : setting.registry.Consistent)
    (names : Template.Footprint) (c c' : Context) :
    Scope.Lasting names setting (Scope.Agree setting.registry names.reads c c') where
  get? hread hs := hs.context.read hread
  call := Eval.call_alike hr (fun hs => ⟨hs.left, hs.right⟩) fun hs h h' => ⟨hs.context, h, h'⟩
  put value _ hs := ⟨hs.context.put _ value, hs.left, hs.right⟩

theorem Engine.From.render_agree {config : Config} {registry : Registry} {e e' : Engine}
    (h : From config registry e) (h' : From config registry e') (hr : registry.Consistent)
    (sink : Sink) (template : Template) {c c' : Context}
    (hagree : ∀ name, template.ReadsName name → c.get? name = c'.get? name) :
    (e.render sink template c).result = (e'.render sink template c').result ∧
      (e.render sink template c).output = (e'.render sink template c').output ∧
      Context.Agree template.ReadsName c c' (e.render sink template c).context
        (e'.render sink template c').context := by
  have hsetting := h.setting_eq h' rfl
  obtain ⟨rfl, rfl, hsound'⟩ := h'
  have hs : Scope.Agree e'.registry template.footprint.reads c c' ⟨c, e.cache⟩ ⟨c', e'.cache⟩ :=
    ⟨.start hagree, h.sound, hsound'⟩
  obtain ⟨hresult, houtput, hscope⟩ := Engine.render_related hsetting
    (Scope.lasting_agree hr template.footprint c c') sink template.footprint_covers hs
  exact ⟨hresult, houtput, hscope.context⟩

/-- Two contexts that agree on the roots of all references in a template, wherever these stand, make
no difference to its render, whatever the engine has done before either run: the results and the
outputs are equal, and every name is bound alike in the end or keeps in both runs what it was bound
to. -/
theorem render_reads_roots_only (methods : List Method) (config : Config)
    (uses uses' : List Engine.Use) (sink : Sink) (template : Template) (c c' : Context)
    (hagree : ∀ name, template.ReadsName name → c.get? name = c'.get? name) :
    let engine := Engine.ofConfig config (Registry.empty.defineAll methods)
    let run := (engine.afterAll uses).render sink template c
    let run' := (engine.afterAll uses').render sink template c'
    run.result = run'.result ∧ run.output = run'.output ∧
      ∀ name, run.context.get? name = run'.context.get? name ∨
        run.context.get? name = c.get? name ∧ run'.context.get? name = c'.get? name := by
  intro engine run run'
  have hr : (Registry.empty.defineAll methods).Consistent := Registry.consistent_defineAll methods
  have hfresh := Engine.From.ofConfig config (Registry.empty.defineAll methods)
  obtain ⟨hresult, houtput, hbindings⟩ :=
    (hfresh.afterAll hr uses).render_agree (hfresh.afterAll hr uses') hr sink template hagree
  exact ⟨hresult, houtput, hbindings.kept⟩

def nestedSets : Template :=
  let a : Template.Reference := .mk false "a" [] "$a"
  { label := "nested"
    nodes := [.set "b" (.interpolated [.set "k" (.reference a), .reference a])] }

def nestedNames : Template.Footprint where
  reads name := name = "a"
  sets name := name = "b" ∨ name = "k"

theorem nestedSets_covered : ∀ node ∈ nestedSets.nodes, nestedNames.Covers (.node node) := by
  have hreference : nestedNames.Covers (.reference (.mk false "a" [] "$a")) := by
    refine .of_children (fun r heq => ?_) nofun fun _ _ hchild => ?_
    · cases heq
      rfl
    · cases hchild with
      | accessor _ _ _ ha => cases ha
  have hinner : nestedNames.Covers (.node (.set "k" (.reference (.mk false "a" [] "$a")))) := by
    refine .of_children nofun (fun target value heq => ?_) fun _ _ hchild => ?_
    · cases heq
      exact .inr rfl
    · cases hchild
      refine .of_children nofun nofun fun _ _ hchild => ?_
      cases hchild
      exact hreference
  intro node hnode
  rw [List.eq_of_mem_singleton hnode]
  refine .of_children nofun (fun target value heq => ?_) fun _ _ hchild => ?_
  · cases heq
    exact .inl rfl
  · cases hchild
    refine .of_children nofun nofun fun _ _ hchild => ?_
    cases hchild with
    | interpolated hnode =>
        simp only [List.mem_cons, List.not_mem_nil, or_false] at hnode
        obtain rfl | rfl := hnode
        · exact hinner
        · refine .of_children nofun nofun fun _ _ hchild => ?_
          cases hchild
          exact hreference

theorem eq_of_readsName_nestedSets {name : String} (h : nestedSets.ReadsName name) :
    name = "a" := by
  obtain ⟨node, hnode, r, hcontains, rfl⟩ := h
  exact (nestedSets_covered node hnode).reads hcontains

theorem eq_of_setsName_nestedSets {name : String} (h : nestedSets.SetsName name) :
    name = "b" ∨ name = "k" := by
  obtain ⟨node, hnode, value, hcontains⟩ := h
  exact (nestedSets_covered node hnode).sets hcontains

def boundBefore (b z : String) : Context :=
  .ofList [("a", .text "x"), ("b", .text b), ("z", .text z)]

theorem render_reads_roots_only_nested :
    let engine := Engine.ofConfig .usual (Registry.empty.defineAll [])
    let before := [.render .unlimited nestedSets (boundBefore "old" "left")]
    let run := (engine.afterAll []).render .unlimited nestedSets (boundBefore "old" "left")
    let run' := (engine.afterAll before).render .unlimited nestedSets (boundBefore "other" "right")
    (∀ name, nestedSets.ReadsName name →
        (boundBefore "old" "left").get? name = (boundBefore "other" "right").get? name) ∧
      run.result = run'.result ∧ run.output = run'.output ∧
      run.context.get? "b" = some (.text "x") ∧
      ∀ name, run.context.get? name = run'.context.get? name ∨
        run.context.get? name = (boundBefore "old" "left").get? name ∧
          run'.context.get? name = (boundBefore "other" "right").get? name := by
  intro engine before run run'
  have hagree (name : String) (hread : nestedSets.ReadsName name) :
      (boundBefore "old" "left").get? name = (boundBefore "other" "right").get? name := by
    rw [eq_of_readsName_nestedSets hread]
    rfl
  obtain ⟨hresult, houtput, hbindings⟩ := render_reads_roots_only [] .usual [] before .unlimited
    nestedSets (boundBefore "old" "left") (boundBefore "other" "right") hagree
  exact ⟨hagree, hresult, houtput, rfl, hbindings⟩

/-- The name is bound as in `c`, or it is a target and bound. -/
def Context.Kept (sets : String → Prop) (c b : Context) : Prop :=
  ∀ name, b.get? name = c.get? name ∨ sets name ∧ (b.get? name).isSome

theorem Context.Kept.put {sets : String → Prop} {c b : Context} (h : Kept sets c b)
    {name : String} (hset : sets name) (value : Value) : Kept sets c (b.put name value) := by
  intro other
  rw [get?_put]
  split
  · rename_i heq
    exact .inr ⟨heq ▸ hset, rfl⟩
  · exact h other

theorem Scope.lasting_kept (setting : Setting) (names : Template.Footprint) (c : Context) :
    Scope.Lasting names setting fun s s' => s = s' ∧ c.Kept names.sets s.context where
  get? _ hs := by rw [hs.1]
  call receiver name arguments s s' hs := by
    obtain ⟨rfl, hkept⟩ := hs
    exact ⟨rfl, rfl, hkept⟩
  put value hset hs := by
    obtain ⟨rfl, hkept⟩ := hs
    exact ⟨rfl, hkept.put hset value⟩

/-- However a render ends, a name that no `#set` in its template has for its target, wherever that
stands, is bound as before, and no name is unbound. -/
theorem render_binds_targets_only (engine : Engine) (sink : Sink) (template : Template)
    (context : Context) (name : String) :
    let after := (engine.render sink template context).context
    (¬ template.SetsName name → after.get? name = context.get? name) ∧
      ((context.get? name).isSome → (after.get? name).isSome) := by
  intro after
  have hstart : context.Kept template.footprint.sets context := fun _ => .inl rfl
  obtain ⟨-, -, -, hkept⟩ := Engine.render_related (c := context) (e := engine) rfl
    (Scope.lasting_kept engine.setting template.footprint context) sink
    template.footprint_covers ⟨rfl, hstart⟩
  have hname : after.get? name = context.get? name ∨
      template.SetsName name ∧ (after.get? name).isSome := hkept name
  refine ⟨fun hfree => hname.resolve_right fun hset => hfree hset.1, fun hbound => ?_⟩
  rcases hname with heq | ⟨-, hsome⟩
  · rwa [heq]
  · exact hsome

theorem render_binds_targets_only_nested :
    let engine := Engine.ofConfig .usual .withBuiltins
    let before := boundBefore "old" "kept"
    let after := (engine.render .unlimited nestedSets before).context
    ¬ nestedSets.SetsName "z" ∧ (before.get? "b").isSome ∧
      after.get? "z" = before.get? "z" ∧ (after.get? "b").isSome ∧
      after.get? "k" = some (.text "x") := by
  intro engine before after
  have hfree : ¬ nestedSets.SetsName "z" := fun hset => by
    rcases eq_of_setsName_nestedSets hset with heq | heq <;> exact absurd heq (by decide)
  have hbound : (before.get? "b").isSome := rfl
  obtain ⟨hkept, -⟩ := render_binds_targets_only engine .unlimited nestedSets before "z"
  obtain ⟨-, hsome⟩ := render_binds_targets_only engine .unlimited nestedSets before "b"
  exact ⟨hfree, hbound, hkept hfree, hsome hbound, rfl⟩

end Stencil
