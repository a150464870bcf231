import Stencil.Engine.Basic
import Stencil.Proofs.Alike
import Stencil.Proofs.Resolution

/-! What an engine has done before does not show in a render. A cache that is sound answers every
call as no cache would, so two evaluations from equal bindings go the same way, whatever the sound
caches that they start with, and leave sound caches behind. -/

namespace Stencil

def Call.outcome (r : Registry) (c : Call) : Except MethodError Value :=
  match c.cold r with
  | .ok resolution => r.invoke resolution c.receiver c.arguments
  | .error error => .error error

theorem Registry.call_sound {r : Registry} (hr : r.Consistent) {cache : ResolutionCache}
    (h : cache.Sound r) (c : Call) :
    (r.call cache c.receiver c.name c.arguments).1 = c.outcome r ∧
      ResolutionCache.Sound r (r.call cache c.receiver c.name c.arguments).2 := by
  obtain ⟨hanswer, hkept⟩ := resolve_sound hr h c
  simp only [Registry.call, Call.outcome, ← hanswer]
  generalize r.resolve cache c.receiver c.name c.arguments = resolved at hkept
  rcases resolved with ⟨_ | _, after⟩ <;> exact ⟨rfl, hkept⟩

/-- Calls are alike for relations that hold between scopes with sound caches only, and that do not
look at what else the caches are. -/
theorem Eval.call_alike {setting : Setting} (hr : setting.registry.Consistent)
    {related : Scope → Scope → Prop}
    (hsound : ∀ {s s'}, related s s' →
      s.cache.Sound setting.registry ∧ s'.cache.Sound setting.registry)
    (hkept : ∀ {s s'} {cache cache' : ResolutionCache}, related s s' →
      cache.Sound setting.registry → cache'.Sound setting.registry →
        related { s with cache } { s' with cache := cache' })
    (receiver : Value) (name : String) (arguments : List Value) :
    Eval.Alike related (call setting receiver name arguments)
      (call setting receiver name arguments) := by
  intro s s' hs
  obtain ⟨hleft, hright⟩ := hsound hs
  obtain ⟨hanswer, hafter⟩ := Registry.call_sound hr hleft ⟨receiver, name, arguments⟩
  obtain ⟨hanswer', hafter'⟩ := Registry.call_sound hr hright ⟨receiver, name, arguments⟩
  exact ⟨congrArg (Except.mapError EvalError.method) (hanswer.trans hanswer'.symm),
    hkept hs hafter hafter'⟩

structure Scope.Alike (r : Registry) (s s' : Scope) : Prop where
  context : s.context = s'.context
  left : s.cache.Sound r
  right : s'.cache.Sound r

theorem Scope.lasting_alike {setting : Setting} (hr : setting.registry.Consistent) :
    Scope.Lasting .every setting (Scope.Alike setting.registry) where
  get? _ hs := by rw [hs.context]
  call := Eval.call_alike hr (fun hs => ⟨hs.left, hs.right⟩) fun hs h h' => ⟨hs.context, h, h'⟩
  put value _ hs := ⟨congrArg (Context.put · _ value) hs.context, hs.left, hs.right⟩

namespace Engine

theorem render_related {names : Template.Footprint} {related : Scope → Scope → Prop}
    {e e' : Engine} (hsetting : e.setting = e'.setting)
    (h : Scope.Lasting names e'.setting related) (sink : Sink) {template : Template}
    (hc : ∀ node ∈ template.nodes, names.Covers (.node node)) {c c' : Context}
    (hs : related ⟨c, e.cache⟩ ⟨c', e'.cache⟩) :
    (e.render sink template c).result = (e'.render sink template c').result ∧
      (e.render sink template c).output = (e'.render sink template c').output ∧
      related
        ⟨(e.render sink template c).context, (e.render sink template c).engine.cache⟩
        ⟨(e'.render sink template c').context, (e'.render sink template c').engine.cache⟩ := by
  obtain ⟨hresult, hpieces, hscope⟩ := renderWith_related h sink hc hs
  simp only [Engine.render, hsetting]
  exact ⟨congrArg _ hresult, congrArg String.join hpieces, hscope⟩

inductive Use where
  | parse (label source : String)
  | render (sink : Sink) (template : Template) (context : Context)
  | evaluate (sink : Sink) (label source : String) (context : Context)

def after (e : Engine) : Use → Engine
  | .parse .. => e
  | .render sink template context => (e.render sink template context).engine
  | .evaluate sink label source context => (e.evaluate sink label source context).engine

def afterAll (e : Engine) (uses : List Use) : Engine :=
  uses.foldl after e

/-- The engine has kept its settings and members, and remembers only what is right. -/
structure From (config : Config) (registry : Registry) (e : Engine) : Prop where
  config_eq : e.config = config
  registry_eq : e.registry = registry
  sound : e.cache.Sound registry

variable {config : Config} {registry : Registry} {e : Engine}

theorem From.ofConfig (config : Config) (registry : Registry) :
    From config registry (.ofConfig config registry) :=
  ⟨rfl, rfl, ResolutionCache.Sound.empty registry config.capacity config.capacity_pos⟩

theorem From.setting_eq {config' : Config} {e' : Engine} (h : From config registry e)
    (h' : From config' registry e') (hstrict : config.strict = config'.strict) :
    e.setting = e'.setting := by
  simp only [setting, h.registry_eq, h'.registry_eq, h.config_eq, h'.config_eq, hstrict]

theorem From.render (h : From config registry e) (hr : registry.Consistent) (sink : Sink)
    (template : Template) (context : Context) :
    From config registry (e.render sink template context).engine := by
  obtain ⟨rfl, rfl, hsound⟩ := h
  have hs : Scope.Alike e.registry ⟨context, e.cache⟩ ⟨context, e.cache⟩ := ⟨rfl, hsound, hsound⟩
  obtain ⟨-, -, hafter⟩ := render_related rfl (Scope.lasting_alike hr) sink
    (fun _ _ => Template.Footprint.every_covers _) hs
  exact ⟨rfl, rfl, hafter.left⟩

theorem From.after (h : From config registry e) (hr : registry.Consistent) (use : Use) :
    From config registry (e.after use) := by
  cases use with
  | parse label source => exact h
  | render sink template context => exact h.render hr sink template context
  | evaluate sink label source context =>
      simp only [Engine.after, evaluate]
      split
      · exact h.render hr sink _ context
      · exact h

theorem From.afterAll (h : From config registry e) (hr : registry.Consistent)
    (uses : List Use) : From config registry (e.afterAll uses) := by
  induction uses generalizing e with
  | nil => exact h
  | cons use rest ih => exact ih (h.after hr use)

theorem From.render_eq {config' : Config} {e' : Engine} (h : From config registry e)
    (h' : From config' registry e') (hr : registry.Consistent)
    (hstrict : config.strict = config'.strict) (sink : Sink) (template : Template)
    (context : Context) :
    (e.render sink template context).result = (e'.render sink template context).result ∧
      (e.render sink template context).output = (e'.render sink template context).output ∧
      (e.render sink template context).context = (e'.render sink template context).context := by
  have hsetting := h.setting_eq h' hstrict
  obtain ⟨rfl, rfl, hsound'⟩ := h'
  have hs : Scope.Alike e'.registry ⟨context, e.cache⟩ ⟨context, e'.cache⟩ :=
    ⟨rfl, h.sound, hsound'⟩
  obtain ⟨hresult, houtput, hscope⟩ := render_related hsetting (Scope.lasting_alike hr) sink
    (fun _ _ => Template.Footprint.every_covers _) hs
  exact ⟨hresult, houtput, hscope.context⟩

end Engine

/-- Whatever an engine has parsed, rendered or failed to render, the next render yields what it
yields on a fresh engine with another capacity, and so does the same render once more. -/
theorem render_independent_of_history (methods : List Method) (config other : Config)
    (uses : List Engine.Use) (sink : Sink) (template : Template) (context : Context) :
    let registry := Registry.empty.defineAll methods
    let used := ((Engine.ofConfig config registry).afterAll uses).render sink template context
    let fresh :=
      (Engine.ofConfig { other with strict := config.strict } registry).render sink template context
    let again := used.engine.render sink template context
    (used.result = fresh.result ∧ used.output = fresh.output ∧ used.context = fresh.context) ∧
      again.result = used.result ∧ again.output = used.output ∧ again.context = used.context := by
  intro registry used fresh again
  have hr : registry.Consistent := Registry.consistent_defineAll methods
  have hused := (Engine.From.ofConfig config registry).afterAll hr uses
  have hagain := hused.render hr sink template context
  have hfresh := Engine.From.ofConfig { other with strict := config.strict } registry
  exact ⟨hused.render_eq hfresh hr rfl sink template context,
    hagain.render_eq hused hr rfl sink template context⟩

end Stencil
