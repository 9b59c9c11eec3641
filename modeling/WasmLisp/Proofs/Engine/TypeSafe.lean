import Mathlib
import WasmLisp.Proofs.Engine.Typed

/-!
# Linking is type-safe

* `Engine.Reached`: the engines that registrations, loads and calls lead to, all of them coherent;
* `Engine.link_type_safe`: imports that were bound can be linked in them;
* `Engine.namesakes_not_linked`: not so in the namespace that has no name.
-/

namespace WasmLisp.Engine

open Codegen (Wanted)
open Artifact (envModule)

variable {e : Engine} {name : String}

/-! ## Engines that can be reached -/

/-- Engines that a fresh engine becomes when symbols are registered, artifacts of analysed forms are
loaded and functions are called. No data symbol that an artifact defines has the name of a symbol of
the catalog, and no binary is too large for its format. -/
inductive Reached : Engine → Prop where
  | fresh {registry : Registry} (hregistry : registry.Regular) (catalog : Option Catalog) (env : Env)
    (around : Surroundings) : Reached { registry, catalog, env, around }
  | register {e : Engine} (he : Reached e) (symbol : Registry.Foreign) (origin : String) :
    Reached (e.registerForeign symbol origin).1
  | call {e : Engine} (he : Reached e) (qualified : String) (args : List Int64) :
    Reached (e.call qualified args).1
  | load {e : Engine} (he : Reached e) {art : Artifact} {name : String} (hart : art.Compiled)
    (hapart : ApartFrom e.catalog art) (hsmall : (e.begin art name).RewritesSmall art name)
    (ns : String) : Reached (e.load ns (some art) name).1

/-- No load in their past has crashed. -/
theorem Reached.coherent (h : e.Reached) : e.Coherent ∧ e.Settled ∅ := by
  induction h with
  | @fresh registry hregistry catalog env around =>
    have hempty : ∀ {α : Type} (x : String), Table.get? ([] : Table α) x = none := fun _ => rfl
    refine ⟨⟨⟨hregistry.proper, ?_, ?_, ?_⟩, ⟨hregistry.distinct, ?_, ?_, ?_⟩, ?_⟩,
      settled_fresh registry catalog env around⟩
    · exact fun r hr m hm => absurd hm (by simp [hempty])
    · exact fun q provider hq => absurd hq (by simp [hempty])
    · exact fun x m hx => absurd hx (by simp [hempty])
    · exact fun x hx => absurd (hempty x) hx
    · exact fun x hx => absurd (hempty x) hx
    · exact fun x hx => absurd (hempty x) hx
    · intro i inst hi
      simp at hi
  | register he symbol origin ih =>
    exact ⟨ih.1.registerForeign symbol origin, (tables_registerForeign _ symbol origin).settled ih.2⟩
  | call he qualified args ih =>
    exact ⟨ih.1.call qualified args, (tables_call _ qualified args).settled ih.2⟩
  | @load e he art name hart hapart hsmall ns ih =>
    have hsettled := ((Event.load ns art name).step ih.2).2
    simp only [Event.lost, ih.1.crashed_load ih.2 hart hsmall ns, Bool.false_eq_true, if_false,
      Set.union_empty] at hsettled
    exact ⟨ih.1.load ih.2 hart hapart hsmall ns, hsettled⟩

/-- What an import has to be bound to: something of its kind and its type that a live instance of the
name exports. -/
def BoundTo (info : Binary.Info) (s : Machine.Store HostFn) (m : String) (i : Binary.Import) : Prop :=
  match i.desc with
  | .func _ => ∃ params results a, info.importType? i = some (.ofCounts params results) ∧
      (i.module = envModule → results = 1) ∧ s.export? m i.name = some (.func a) ∧
      (s.funcs[a]?).map Machine.Callee.type = some (.ofCounts params results)
  | .global t => t = Codegen.cellType ∧ ∃ a, s.export? m i.name = some (.global a) ∧
      (s.globals[a]?).map Machine.Cell.type = some t
  | .other _ => False

theorem boundTo_of_linkedAs {info : Binary.Info} {s : Machine.Store HostFn}
    {target : String → String → String} {l : Codegen.Layout} (hl : l.Tidy) {w : Wanted}
    (hw : w ∈ l.imports) {i : Binary.Import} (hi : Codegen.Stands info.types w i)
    {ext : Machine.Extern} (h : Codegen.LinkedAs target s w ext) :
    BoundTo info s (target i.module i.name) i := by
  cases w with
  | func module name params results =>
    obtain ⟨t, rfl, ht⟩ := hi
    cases ext with
    | global a => exact h.elim
    | func a =>
      refine ⟨params, results, a, ht, fun henv => ?_, h.1, h.2⟩
      obtain rfl : module = envModule := henv
      exact ((hl.roles _ _ _ _ hw).unique (.env params) fun _ => rfl).2
  | global name =>
    cases hi
    cases ext with
    | func a => exact h.elim
    | global a => exact ⟨rfl, a, h.1, h.2⟩

/-- A load that links goes through these steps; `e₀` is the engine that links. -/
theorem load_of_linking {e₀ : Engine} {ns : String} {art : Artifact}
    (h : (Event.load ns art name).linking e = some e₀) :
    e₀ = e.begin art name ∧ e.refusal? (some art) name = none ∧
      (∀ record, e.modules.get? name = some record → record.outcome = .pending) ∧
      e.load ns (some art) name = e.loadNew ns art name := by
  simp only [Event.linking, Option.ite_none_right_eq_some, Bool.and_eq_true, Option.isNone_iff_eq_none,
    Option.some.injEq] at h
  obtain ⟨⟨hrefusal, hunknown⟩, rfl⟩ := h
  obtain ⟨failure, hrefused, -⟩ | ⟨-, record, result, metrics, hget, hresult, -⟩ | hlinks :=
    load_cases e ns art name
  · cases hrefusal.symm.trans hrefused
  · simp [known?, hget, hresult] at hunknown
  · exact ⟨rfl, hlinks⟩

/-- Linking is type-safe. An artifact of analysed forms is loaded, and `e₀` is the engine that links
it. If all its imports are bound, each is bound to something of its kind and exactly its type, so that
the rewritten binary can be instantiated. If one is not, the load fails and leaves neither an instance
of the module nor one that was made for it. -/
theorem link_type_safe {e : Engine} (he : e.Reached) {art : Artifact} (hart : art.Compiled)
    {name : String} (hsmall : (e.begin art name).RewritesSmall art name) {ns : String} {e₀ : Engine}
    (hlinks : (Event.load ns art name).linking e = some e₀) :
    let result := e.load ns (some art) name
    (∀ failure, e₀.prepare art name = .error failure →
      result.2.2 = .error failure ∧ ∀ x, Reserved name x → result.1.store.Free x) ∧
    ∀ a, e₀.prepare art name = .ok a →
      (∀ e₁ failure, e₀.bound name a = (e₁, .error failure) →
        result.2.2 = .error failure ∧ ∀ x, Reserved name x → result.1.store.Free x) ∧
      ∀ e₁ plan, e₀.bound name a = (e₁, .ok plan) →
        let s := (e₁.bindVars name plan).store
        (∀ i ∈ a.info.imports, BoundTo a.info s (plan.target i.module i.name) i) ∧
        ∀ r m, Binary.redirectImports plan.target art.bytes = .ok r →
          Machine.Module.load? r.bytes = some m → ∃ s', s.instantiate? m name = some s' := by
  obtain ⟨rfl, hrefusal, hnew, hload⟩ := load_of_linking hlinks
  obtain ⟨hcoherent, hsettled⟩ := he.coherent
  have hname := loadable_of_refusal? hrefusal
  have hfree : ∀ x, Reserved name x → (e.begin art name).store.Free x := fun x hx =>
    hcoherent.named.free hname (hsettled.get?_eq_none hnew) hx
  have hbegun := hcoherent.begin art name
  intro result
  refine ⟨fun failure hfailure => ?_, fun a ha => ⟨fun e₁ failure hfailure => ?_,
    fun e₁ plan hbound => ?_⟩⟩
  · have hlink : (e.begin art name).link ns art name = (e.begin art name, ns, .error failure) := by
      simp only [link, hfailure]
    have hresult : result = ((e.begin art name).finish art name (.error failure), ns, .error failure) := by
      simp only [result, hload, loadNew, hlink]
    rw [hresult]
    exact ⟨rfl, hfree⟩
  · have hlink : (e.begin art name).link ns art name = (e₁, ns, .error failure) := by
      unfold bound at hfailure
      simp only [link, ha, hfailure]
    have hresult : result = (e₁.finish art name (.error failure), ns, .error failure) := by
      simp only [result, hload, loadNew, hlink]
    have hadds := (generates_bound (e.begin art name) name a).2
    rw [hfailure] at hadds
    rw [hresult]
    exact ⟨rfl, fun x hx => hadds.free (hfree x hx) (not_foreignName hx hname)⟩
  · obtain ⟨u, fns, maxDepth, g, hforms, hmade⟩ := hart
    obtain ⟨p, new, hp, hmanifest, hmodule⟩ := hmade.program
    obtain ⟨hinfo, -⟩ := prepare_made hmade ha
    have hlinked := hbegun.linked hfree hname hmade hp hmodule hinfo hbound
    refine ⟨fun i hi => ?_, fun r m hr hm => ?_⟩
    · have hstands : List.Forall₂ (Codegen.Stands a.info.types) p.layout.imports a.info.imports := by
        rw [hinfo, hmodule]
        exact (Codegen.Program.toModule_spec (Codegen.Program.types_le (hmodule ▸ hmade.size))).1
      obtain ⟨k, hk⟩ := List.getElem?_of_mem hi
      obtain ⟨w, hw, hwi⟩ := Codegen.forall₂_getElem? hstands.flip hk
      obtain ⟨ext, hext⟩ := hlinked w (List.mem_of_getElem? hw)
      exact boundTo_of_linkedAs hp.layout.tidy (List.mem_of_getElem? hw) hwi hext
    · obtain ⟨rfl, -⟩ := hmade.load?_redirected hp hmodule hr (hsmall a e₁ plan r ha hbound hr) hm
      exact Codegen.instantiate?_isSome (hmade.toModule_lt hmodule) hlinked name

/-! ## Artifacts of small units -/

/-- The module that is generated of a unit which needs no preamble. -/
def generatedOf (u : CompUnit) : Codegen.Generated :=
  (Codegen.generate u [] 0).toOption.getD default

/-- The artifact of it. -/
def artifactOf (u : CompUnit) : Artifact :=
  { manifest := some (generatedOf u).manifest, bytes := (generatedOf u).module.encode }

theorem made_artifactOf {u : CompUnit} (hok : (Codegen.generate u [] 0).isOk = true)
    (hsize : (generatedOf u).module.encode.length < 0x100000000) :
    (artifactOf u).Made u [] 0 (generatedOf u) := by
  refine ⟨?_, rfl, .inr rfl, hsize⟩
  unfold generatedOf
  cases hgen : Codegen.generate u [] 0 with
  | error failure =>
    rw [hgen] at hok
    cases hok
  | ok g => rfl

/-! ## A foreign function is linked -/

/-- A foreign function, and a unit that calls it. -/
def twice : Registry.Foreign :=
  { name := "twice", kind := .function, arity := 1
    fn := some fun around args => (around, .ok (2 * args.headD 0)) }

def sixUnit : CompUnit := { forms := [.foreignCall "twice" [.const 3]] }

def sixModule : Codegen.Generated := (Codegen.generate sixUnit [] 0).toOption.getD default

def sixArtifact : Artifact := { manifest := some sixModule.manifest, bytes := sixModule.module.encode }

/-- An engine that knows the function. -/
def twiceEngine : Engine := (({} : Engine).registerForeign twice "test").1

/-- The only import of the unit. -/
def twiceImport : Binary.Import := { module := envModule, name := "twice", desc := .func 0 }

theorem analyzed_sixUnit : ∀ n ∈ sixUnit.forms, n.Analyzed := by
  have hscan : Token.scan "(native/twice 3)" = .ok [{ kind := .openParen, text := "(", line := 1 },
      { kind := .atom, text := "native/twice", line := 1 }, { kind := .atom, text := "3", line := 1 },
      { kind := .closeParen, text := ")", line := 1 }] := by cbv
  have hsymbol : Symbol.ofText "native/twice" = { ns := "native", name := "twice" } := rfl
  have hatom : Reader.atom "native/twice" 1 = .ok (.sym { ns := "native", name := "twice" } 1) := by
    rw [← hsymbol]
    rfl
  have hthree : Reader.atom "3" 1 = .ok (.int 3 1) := rfl
  have hread : Form.readAll "(native/twice 3)" =
      .ok [.list [.sym { ns := "native", name := "twice" } 1, .int 3 1] 1] := by
    unfold Form.readAll Reader.read
    rw [hscan]
    simp only [Reader.forms, Reader.run, Reader.step, hatom, hthree, bind, Except.bind, Except.map_ok]
    rfl
  refine List.forall_mem_singleton.mpr ⟨_, _, _, .initial, "user", hread,
    List.mem_singleton_self _, by decide, by decide, by cbv⟩

set_option maxRecDepth 100000 in
theorem made_sixArtifact : sixArtifact.Made sixUnit [] 0 sixModule := by
  have hsmall : decide (sixModule.module.encode.length < 0x100000000) = true := by cbv
  exact made_artifactOf (by decide) (of_decide_eq_true hsmall)

theorem imports_sixModule : sixModule.module.imports = [twiceImport] := rfl

/-- The function is found in the instance that is made for it. -/
theorem bound_sixArtifact {a : Prepared} (ha : a.info = sixModule.module.info) :
    ∃ e₁ plan, (twiceEngine.begin sixArtifact "m").bound "m" a = (e₁, .ok plan) ∧
      plan.target envModule "twice" = "#foreign/1" := by
  have htarget : ((twiceEngine.begin sixArtifact "m").bound "m"
      { info := sixModule.module.info, manifest := default, entry := "" }).2.toOption.map
      (·.target envModule "twice") = some "#foreign/1" := rfl
  have hsame : (twiceEngine.begin sixArtifact "m").bound "m" a =
      (twiceEngine.begin sixArtifact "m").bound "m"
        { info := sixModule.module.info, manifest := default, entry := "" } := by
    unfold bound
    rw [ha]
  rw [← hsame] at htarget
  rcases hbound : (twiceEngine.begin sixArtifact "m").bound "m" a with ⟨e₁, failure | plan⟩
  · rw [hbound] at htarget
    cases htarget
  · rw [hbound] at htarget
    exact ⟨e₁, plan, rfl, Option.some.inj htarget⟩

set_option maxRecDepth 100000 in
theorem rewritesSmall_sixArtifact :
    (twiceEngine.begin sixArtifact "m").RewritesSmall sixArtifact "m" := by
  intro a e₁ plan r ha hbound hr
  obtain ⟨_, plan', hbound', htarget⟩ := bound_sixArtifact (prepare_made made_sixArtifact ha).1
  cases hbound.symm.trans hbound'
  obtain ⟨p, new, -, -, hmodule⟩ := made_sixArtifact.program
  have hplain : sixModule.module.Plain := by
    rw [hmodule]
    exact Codegen.Program.plain (Codegen.Program.types_le (hmodule ▸ made_sixArtifact.size)) _
  obtain ⟨r', hr', hbytes⟩ := Binary.redirectImports_encode plan.target hplain made_sixArtifact.size
  cases hr'.symm.trans hr
  have hredirect : sixModule.module.redirect plan.target =
      sixModule.module.redirect fun _ _ => "#foreign/1" := by
    unfold Binary.Module.redirect
    rw [imports_sixModule]
    simp only [List.map_cons, List.map_nil, Binary.Import.redirect, twiceImport, htarget]
  have hsmall : decide ((sixModule.module.redirect fun _ _ => "#foreign/1").encode.length <
      0x100000000) = true := by cbv
  rw [hbytes, hredirect]
  exact of_decide_eq_true hsmall

theorem link_type_safe_twice :
    ∃ a e₁ plan, (twiceEngine.begin sixArtifact "m").bound "m" a = (e₁, .ok plan) ∧
      a.info.imports = [twiceImport] ∧
      BoundTo a.info (e₁.bindVars "m" plan).store "#foreign/1" twiceImport := by
  have hreached : twiceEngine.Reached :=
    .register (.fresh (show ({} : Registry).Regular from ⟨List.nodup_nil, by simp⟩) none _ _) twice
      "test"
  have hlinks : (Event.load "user" sixArtifact "m").linking twiceEngine =
      some (twiceEngine.begin sixArtifact "m") := by
    unfold Event.linking
    exact if_pos (by decide)
  let a : Prepared :=
    { info := sixModule.module.info, manifest := sixModule.manifest, entry := sixModule.manifest.entry }
  have hprepare : (twiceEngine.begin sixArtifact "m").prepare sixArtifact "m" = .ok a := by
    have hglobals : sixModule.module.info.exportedGlobals = [] := rfl
    unfold prepare
    rw [made_sixArtifact.inspect]
    simp only [manifestOf, sixArtifact, hglobals, checkGlobals, bind, Except.bind, pure, Except.pure, a]
    rfl
  obtain ⟨e₁, plan, hbound, htarget⟩ := bound_sixArtifact (a := a) rfl
  have hsafe := ((link_type_safe hreached ⟨_, _, _, _, analyzed_sixUnit, made_sixArtifact⟩
    rewritesSmall_sixArtifact hlinks).2 a hprepare).2 e₁ plan hbound
  refine ⟨a, e₁, plan, hbound, imports_sixModule, ?_⟩
  rw [← htarget]
  exact hsafe.1 twiceImport (by
    show twiceImport ∈ sixModule.module.imports
    rw [imports_sixModule]
    exact List.mem_singleton_self _)

/-! ## A function and data of one name -/

/-- In the namespace that has no name: a unit that defines a function, one that defines a data symbol which
is called the same, and one that uses both. -/
def functionUnit : CompUnit := { forms := [.defn "" "x" [] (.const 1)] }

def dataUnit : CompUnit := { forms := [.defGlobal "/x" 2] }

def bothUnit : CompUnit := { forms := [.invoke "" "x" [], .foreignGet "/x"] }

/-- An engine in which the function and the data symbol are loaded. -/
def namesakeEngine : Engine :=
  ({} : Engine).after
    [.load "user" (artifactOf functionUnit) "a", .load "user" (artifactOf dataUnit) "b"]

/-- It begins to load what uses both. -/
def bothEngine : Engine := namesakeEngine.begin (artifactOf bothUnit) "c"

set_option maxRecDepth 100000 in
theorem made_namesakes :
    (artifactOf functionUnit).Made functionUnit [] 0 (generatedOf functionUnit) ∧
      (artifactOf dataUnit).Made dataUnit [] 0 (generatedOf dataUnit) ∧
      (artifactOf bothUnit).Made bothUnit [] 0 (generatedOf bothUnit) := by
  have hsmall : decide ((generatedOf bothUnit).module.encode.length < 0x100000000) = true := by cbv
  exact ⟨made_artifactOf (by decide +kernel) (by decide +kernel),
    made_artifactOf (by decide +kernel) (by decide +kernel),
    made_artifactOf (by decide) (of_decide_eq_true hsmall)⟩

theorem prepare_bothUnit : bothEngine.prepare (artifactOf bothUnit) "c" = .ok
    { info := (generatedOf bothUnit).module.info, manifest := (generatedOf bothUnit).manifest
      entry := (generatedOf bothUnit).manifest.entry } := by
  have hglobals : (generatedOf bothUnit).module.info.exportedGlobals = [] := rfl
  unfold prepare
  rw [made_namesakes.2.2.inspect]
  simp only [manifestOf, artifactOf, hglobals, checkGlobals, bind, Except.bind, pure, Except.pure]
  rfl

/-- What the unit is bound to: the program, the engine and the plan. -/
def bothPlan : Option (Codegen.Program × Engine × Plan) :=
  match Codegen.Program.ofUnit bothUnit [] (Codegen.effectiveDepth 0), bothEngine.bound "c"
    { info := (generatedOf bothUnit).module.info, manifest := (generatedOf bothUnit).manifest
      entry := (generatedOf bothUnit).manifest.entry } with
  | .ok p, (e, .ok plan) => some (p, e, plan)
  | _, _ => none

/-- Both imports are found, the one of the function with the data symbol, and the program cannot be
instantiated with that. -/
theorem bothPlan_spec : ∃ p e plan, bothPlan = some (p, e, plan) ∧ p.machine.valid = true ∧
    plan.target envModule "/x" = "b" ∧
    (e.bindVars "c" plan).store.instantiate? (p.machine.redirect plan.target) "c" = none := by
  have hspec : bothPlan.any (fun (p, e, plan) => p.machine.valid &&
      decide (plan.target envModule "/x" = "b") &&
      ((e.bindVars "c" plan).store.instantiate? (p.machine.redirect plan.target) "c").isNone) = true := by
    decide +kernel
  generalize bothPlan = found at hspec ⊢
  obtain _ | ⟨p, e, plan⟩ := found
  · cases hspec
  · simp only [Option.any_some, Bool.and_eq_true, decide_eq_true_eq, Option.isNone_iff_eq_none] at hspec
    exact ⟨p, e, plan, rfl, hspec.1.1, hspec.1.2, hspec.2⟩

theorem readAll_bothUnit : Form.readAll "(x) native//x" = .ok
    [.list [.sym { name := "x" } 1] 1, .sym { ns := "native", name := "/x" } 1] := by
  have hscan : Token.scan "(x) native//x" = .ok [{ kind := .openParen, text := "(", line := 1 },
      { kind := .atom, text := "x", line := 1 }, { kind := .closeParen, text := ")", line := 1 },
      { kind := .atom, text := "native//x", line := 1 }] := by cbv
  have hname : Symbol.ofText "x" = { name := "x" } := rfl
  have hdata : Symbol.ofText "native//x" = { ns := "native", name := "/x" } := rfl
  have hatoms : Reader.atom "x" 1 = .ok (.sym { name := "x" } 1) ∧
      Reader.atom "native//x" 1 = .ok (.sym { ns := "native", name := "/x" } 1) := by
    rw [← hname, ← hdata]
    exact ⟨rfl, rfl⟩
  unfold Form.readAll Reader.read
  rw [hscan]
  simp only [Reader.forms, Reader.run, Reader.step, hatoms, bind, Except.bind, Except.map_ok]
  rfl

/-- All three units are what sources are analysed to. -/
theorem analyzed_namesakes : ∀ u ∈ [functionUnit, dataUnit, bothUnit], ∀ n ∈ u.forms,
    ∃ source forms f env, Form.readAll source = .ok forms ∧ f ∈ forms ∧ (f.analyze env "").2 = .ok n := by
  intro u hu n hn
  simp only [List.mem_cons, List.not_mem_nil, or_false] at hu
  obtain rfl | rfl | rfl := hu
  · obtain rfl := List.mem_singleton.mp hn
    exact Codegen.analyzed_clash _ List.mem_cons_self
  · obtain rfl := List.mem_singleton.mp hn
    exact Codegen.analyzed_clash _ (List.mem_cons_of_mem _ (List.mem_singleton_self _))
  · obtain rfl | rfl := List.mem_pair.mp hn
    · exact ⟨_, _, _, (Env.initial.intern "" "x" .fn 0).1, readAll_bothUnit, List.mem_cons_self, by cbv⟩
    · exact ⟨_, _, _, .initial, readAll_bothUnit, List.mem_cons_of_mem _ (List.mem_singleton_self _),
        by cbv⟩

set_option maxRecDepth 100000 in
/-- The binary is small, too, when its imports are redirected to the module of the data symbol. -/
theorem redirect_bothUnit_small {target : String → String → String} (htarget : target envModule "/x" = "b") :
    ((generatedOf bothUnit).module.redirect target).encode.length < 0x100000000 := by
  have himports : (generatedOf bothUnit).module.imports =
      [⟨envModule, "/x", .func 0⟩, ⟨envModule, "/x", .global Codegen.cellType⟩] := rfl
  have hredirect : (generatedOf bothUnit).module.redirect target =
      (generatedOf bothUnit).module.redirect fun _ _ => "b" := by
    unfold Binary.Module.redirect
    rw [himports]
    simp only [List.map_cons, List.map_nil, Binary.Import.redirect, htarget]
  have hsmall : decide (((generatedOf bothUnit).module.redirect fun _ _ => "b").encode.length <
      0x100000000) = true := by cbv
  rw [hredirect]
  exact of_decide_eq_true hsmall

/-- In the namespace that has no name, a function and a data symbol can be called the same. The analysed unit
that uses both has all its imports bound, and its rewritten binary cannot be instantiated. -/
theorem namesakes_not_linked :
    (∀ u ∈ [functionUnit, dataUnit, bothUnit], ∀ n ∈ u.forms, ∃ source forms f env,
      Form.readAll source = .ok forms ∧ f ∈ forms ∧ (f.analyze env "").2 = .ok n) ∧
    (∀ u ∈ [functionUnit, dataUnit, bothUnit], (artifactOf u).Made u [] 0 (generatedOf u)) ∧
    ∃ a e₁ plan r m, bothEngine.prepare (artifactOf bothUnit) "c" = .ok a ∧
      bothEngine.bound "c" a = (e₁, .ok plan) ∧
      Binary.redirectImports plan.target (artifactOf bothUnit).bytes = .ok r ∧
      Machine.Module.load? r.bytes = some m ∧
      (e₁.bindVars "c" plan).store.instantiate? m "c" = none := by
  obtain ⟨hfunction, hdata, hboth⟩ := made_namesakes
  refine ⟨analyzed_namesakes, ?_, ?_⟩
  · simp only [List.forall_mem_cons]
    exact ⟨hfunction, hdata, hboth, by simp⟩
  · obtain ⟨p, e₁, plan, hplan, hvalid, htarget, hnone⟩ := bothPlan_spec
    obtain ⟨p', hp, -, hmodule⟩ := Codegen.generate_eq_ok hboth.generated
    obtain ⟨new, hbuilt⟩ := Codegen.Program.ofUnit_built hp
    unfold bothPlan at hplan
    rw [hp] at hplan
    split at hplan
    · rename_i q e₂ plan' hq hbound
      cases hq
      cases hplan
      obtain ⟨r, hr, hbytes⟩ := hboth.redirectImports_eq hmodule plan.target
      have hsize : r.bytes.length < 0x100000000 := by
        rw [hbytes, ← hmodule]
        exact redirect_bothUnit_small htarget
      have hload := hboth.load?_redirected_eq hbuilt hmodule hr hsize
      rw [hvalid, if_pos rfl] at hload
      exact ⟨_, e₁, plan, r, _, prepare_bothUnit, hbound, hr, hload, hnone⟩
    · cases hplan

end WasmLisp.Engine
