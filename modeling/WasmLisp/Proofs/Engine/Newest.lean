import Mathlib
import WasmLisp.Proofs.Codegen.Linked
import WasmLisp.Proofs.Engine.Typed

/-!
# The newest definition

Modules of generated code are loaded one after the other. A unit can call a function that it does not define
itself. Such a call leads to the preamble function of the name, which is linked into the module, and if there
is none to the function of the last unit before it that defines the name. No later load changes that.

* `Codegen.Layout.callIndex`: the index that a call uses;
* `LoadedUnit`: a unit, the program that was generated of it, and its instance; `LoadedUnit.Holds`: there is
  the code of a definition at an address;
* `newest?`: the last of several units that defines a name;
* `LoadedUnit.Bound`: where the calls lead to of what a unit does not define;
* `Engine.Chain`: the units that are loaded in an engine, and `Engine.Chain.load`: one more is loaded.
-/

namespace WasmLisp

open Codegen (Program Reached callsOf shared?)
open Machine (Store)
open Artifact (envModule)

/-! ## The index of a call -/

namespace Codegen

/-- The index that calls of a function use. -/
def Layout.callIndex (l : Layout) (q : String × String) : Nat :=
  ((l.funcIndex? q.1 q.2).map (·.1)).getD (l.importIndex envModule (Symbol.qualify q.1 q.2))

variable {u : CompUnit} {fns : List Defn} {new : List Reached} {l : Layout} {q : String × String}

theorem callee?_of_notMem (hout : q ∉ u.defns.map Defn.key) : callee? u fns q = shared? fns q := by
  have hnone : (u.nodes.filterMap definition?).find? (·.key == q) = none := by
    rw [List.find?_eq_none]
    intro f hf hkey
    rw [map_key_defns] at hout
    exact hout (List.mem_map.mpr ⟨f, hf, by simpa using hkey⟩)
  rw [callee?, hnone]

/-- A call of a preamble function uses the index of the function in the module. -/
theorem Layout.Built.callIndex_of_shared (hb : l.Built u fns new) (hcall : q ∈ callsOf u.nodes)
    (hout : q ∉ u.defns.map Defn.key) {d : Defn} (hd : shared? fns q = some d) :
    ∃ (i : Nat) (f : Linked), l.funcs[i]? = some f ∧ f.defn = d ∧
      l.callIndex q = l.funcImports.length + i := by
  have hcalled := hb.mem_callsOf_of_called (.unit hcall)
  obtain ⟨i, f, hf, hdefn, hindex⟩ := hb.callee?_eq_some hcalled ((callee?_of_notMem hout).trans hd)
  exact ⟨i, f, hf, hdefn, by rw [Layout.callIndex, hindex]; rfl⟩

/-- A call of what neither the unit nor the preamble has uses the index of an import. -/
theorem Layout.Built.callIndex_of_import (hb : l.Built u fns new) (hcall : q ∈ callsOf u.nodes)
    (hout : q ∉ u.defns.map Defn.key) (hd : shared? fns q = none) :
    ∃ params, .func envModule (Symbol.qualify q.1 q.2) params 1 ∈ l.imports ∧
      l.callIndex q = l.importIndex envModule (Symbol.qualify q.1 q.2) := by
  have hkeys : q ∉ l.keys := (hb.notMem_keys_iff (.unit hcall)).mpr ⟨hout, hd⟩
  obtain ⟨args, hin⟩ := mem_callsOf.mp (hb.mem_callsOf_of_called (.unit hcall))
  refine ⟨args.length, (hb.places _ hin).resolve_left hkeys, ?_⟩
  cases hindex : l.funcIndex? q.1 q.2 with
  | none => rw [Layout.callIndex, hindex]; rfl
  | some found =>
    obtain ⟨i, f, hk, -⟩ := Layout.funcIndex?_eq_some hindex
    exact absurd (List.mem_of_getElem? hk) hkeys

end Codegen

/-! ## Loaded units -/

/-- A unit that is loaded, with the program that was generated of it and the instance of that. -/
structure LoadedUnit where
  unit : CompUnit
  program : Program
  /-- How deep expressions could be nested. -/
  depth : Nat
  inst : Machine.Instance

namespace LoadedUnit

variable {m : LoadedUnit} {fns : List Defn} {s t : Store HostFn}

/-- The names that the unit defines functions of. -/
def defines (m : LoadedUnit) : List String := m.unit.defns.map Defn.qualified

/-- The address of the function that calls of a pair lead to. -/
def callee? (m : LoadedUnit) (q : String × String) : Option Nat :=
  m.inst.funcs[m.program.layout.callIndex q]?

/-- At the address is the code that was generated of a definition for the module of the unit. -/
def Holds (m : LoadedUnit) (s : Store HostFn) (d : Defn) (a : Nat) : Prop :=
  ∃ i k code, s.instances[i]? = some m.inst ∧
    Codegen.functionCode { layout := m.program.layout, maxDepth := m.depth } d = .ok code ∧
    s.funcs[a]? = some (.code i k (.ofCounts code.params 1) code.locals code.body)

theorem Holds.grown {d : Defn} {a : Nat} (h : m.Holds s d a) (hgrown : s.Grown t) : m.Holds t d a := by
  obtain ⟨i, k, code, hinst, hcode, hcallee⟩ := h
  exact ⟨i, k, code, hgrown.instances _ _ hinst, hcode, hgrown.funcs _ _ hcallee⟩

/-- The program is that of the unit, its instance is in the store, and what the unit defines is found
under the name of the unit. -/
structure In (fns : List Defn) (s : Store HostFn) (m : LoadedUnit) : Prop where
  generated : Program.ofUnit m.unit fns m.depth = .ok m.program
  placed : ∃ i : Nat, s.instances[i]? = some m.inst
  found : ∀ d ∈ m.unit.defns, ∃ a,
    s.export? m.unit.name d.qualified = some (.func a) ∧ m.Holds s d a

theorem In.grown (h : m.In fns s) (hgrown : s.Grown t) : m.In fns t where
  generated := h.generated
  placed := h.placed.imp fun i hi => hgrown.instances i _ hi
  found d hd := (h.found d hd).imp fun _ ha => ⟨hgrown.export? ha.1, ha.2.grown hgrown⟩

/-- The unit calls the function and does not define it. -/
def Borrows (m : LoadedUnit) (q : String × String) : Prop :=
  q ∈ callsOf m.unit.nodes ∧ q ∉ m.unit.defns.map Defn.key

end LoadedUnit

/-- The last of the units that defines a name. -/
def newest? (ms : List LoadedUnit) (x : String) : Option LoadedUnit :=
  ms.reverse.find? fun m => x ∈ m.defines

theorem newest?_append (ms : List LoadedUnit) (m : LoadedUnit) (x : String) :
    newest? (ms ++ [m]) x = if x ∈ m.defines then some m else newest? ms x := by
  simp only [newest?, List.reverse_append, List.reverse_singleton, List.singleton_append, List.find?_cons]
  split <;> simp_all

theorem mem_of_newest? {ms : List LoadedUnit} {m : LoadedUnit} {x : String} (h : newest? ms x = some m) :
    m ∈ ms ∧ ∃ d ∈ m.unit.defns, d.qualified = x := by
  have hdefines : x ∈ m.defines := by simpa using List.find?_some h
  exact ⟨List.mem_reverse.mp (List.mem_of_find?_eq_some h), List.mem_map.mp hdefines⟩

/-- A call of a function that the unit does not define leads to its own copy of the preamble function of the
name; if there is none, to the function of the newest unit before it that defines the name. -/
structure LoadedUnit.Bound (fns : List Defn) (before : List LoadedUnit) (s : Store HostFn)
    (m : LoadedUnit) : Prop where
  shared : ∀ q d, m.Borrows q → shared? fns q = some d → ∃ a, m.callee? q = some a ∧ m.Holds s d a
  newest : ∀ q, m.Borrows q → shared? fns q = none → ∃ owner a,
    newest? before (Symbol.qualify q.1 q.2) = some owner ∧ m.callee? q = some a ∧
      ∃ d ∈ owner.unit.defns, d.qualified = Symbol.qualify q.1 q.2 ∧ owner.Holds s d a

theorem LoadedUnit.Bound.grown {fns : List Defn} {before : List LoadedUnit} {s t : Store HostFn}
    {m : LoadedUnit} (h : m.Bound fns before s) (hgrown : s.Grown t) : m.Bound fns before t where
  shared q d hq hd := (h.shared q d hq hd).imp fun _ ha => ⟨ha.1, ha.2.grown hgrown⟩
  newest q hq hd := by
    obtain ⟨owner, a, howner, hcallee, d, hmem, hname, hholds⟩ := h.newest q hq hd
    exact ⟨owner, a, howner, hcallee, d, hmem, hname, hholds.grown hgrown⟩

namespace Engine

/-! ## Providers of functions -/

section

variable {e e₁ : Engine} {name : String} {a : Prepared} {plan : Plan}

theorem proper_resolveImport (h : e.registry.Proper) (info : Binary.Info) (i : Binary.Import) (p : Plan) :
    (e.resolveImport name info i p).1.registry.Proper := by
  obtain heq | ⟨c, symbol, lib, record, registry, -, -, hregister, heq⟩ :=
    resolveImport_cases e name info i p
  · rwa [heq]
  · rw [heq, registry_materialize]
    exact h.register hregister

theorem proper_bound (h : e.registry.Proper) (name : String) (a : Prepared) :
    (e.bound name a).1.registry.Proper :=
  resolveAll_induction (motive := (·.registry.Proper)) (fun _ i p he => proper_resolveImport he a.info i p)
    _ _ (by rw [registry_materialize]; exact h)

/-- No registered symbol has a slash in its name, so an import of such a name is bound to the owner of the
data or to the module that provides the function. -/
theorem target_of_slash (h : e.registry.Proper) (hbound : e.bound name a = (e₁, .ok plan))
    {i : Binary.Import}
    (hi : i ∈ a.info.imports) (hmodule : i.module = envModule) (hslash : '/' ∈ i.name.toList) :
    e.globals.get? i.name = some (plan.target i.module i.name) ∨
      ∃ arity, e.funcs.get? i.name = some { module := plan.target i.module i.name, arity } := by
  have hproper := proper_bound h name a
  have htables := (searched_bound e name a).tables
  rw [hbound] at hproper htables
  obtain ⟨choices, hchoices, hremap, -, -⟩ := resolveAll_eq_ok (motive := fun _ => True)
    (P := fun e i m => i.module = envModule → (∃ r, e.registry.resolve? i.name = some r) ∨
      e.globals.get? i.name = some m ∨ ∃ arity, e.funcs.get? i.name = some { module := m, arity })
    (fun _ _ _ _ => trivial)
    (fun e i m _ hchosen henv => by
      obtain ⟨w, -, hprovided⟩ := hchosen.of_env henv
      cases hprovided with
      | registered r hr _ _ _ => exact .inl ⟨r, hr⟩
      | global _ hm => exact .inr (.inl hm)
      | defined _ hm => exact .inr (.inr ⟨_, hm⟩))
    (fun e i p j m _ hkept henv => by
      have htables := (searched_resolveImport e name a.info i p).tables
      rw [htables.globals, htables.funcs]
      exact (hkept henv).imp_left fun ⟨r, hr⟩ => ⟨r, resolve?_resolveImport hr i p⟩)
    trivial hbound
  obtain ⟨j, -, hkey, hj⟩ := Plan.target_of_choices hchoices (hremap.trans (List.append_nil _)) hi
  obtain ⟨hjmodule, hjname⟩ := Prod.mk.inj hkey
  have hprovided := hj (hjmodule.trans hmodule)
  rw [hjname, htables.globals, htables.funcs] at hprovided
  exact hprovided.resolve_left fun ⟨r, hr⟩ => hproper.slash_notMem hr hslash

end

/-! ## One more unit -/

section

variable {e e₁ e₂ e₃ e' : Engine} {ns ns' name : String} {art : Artifact} {u : CompUnit} {fns : List Defn}
  {depth : Nat} {maxDepth : Int} {g : Codegen.Generated} {p : Program} {new : List Reached} {plan : Plan}
  {a : Prepared} {bin : List UInt8} {s : Store HostFn} {inst : Machine.Instance} {function : Nat}
  {values : List Int64} {frame : Frame} {ms : List LoadedUnit}

/-- The names of the functions that a module of a unit publishes. -/
theorem map_fst_functions (hp : p.Built u fns depth new) :
    (Codegen.manifestOf u p.layout).functions.map (·.1) = u.defns.map Defn.qualified := by
  have hexported : (u.nodes.filterMap Codegen.definition?).filter (·.exported) =
      u.nodes.filterMap Codegen.definition? :=
    List.filter_eq_self.mpr fun f hf => (Codegen.definition?_exported hf).1
  have hadded : (new.map fun r => ({ defn := r.2, exported := false } : Codegen.Linked)).filter
      (·.exported) = [] := by
    rw [List.filter_eq_nil_iff]
    intro f hf
    obtain ⟨r, -, rfl⟩ := List.mem_map.mp hf
    exact Bool.false_ne_true
  show (List.map _ (p.layout.funcs.filter (·.exported))).map _ = _
  rw [hp.layout.funcs, List.filter_append, hexported, hadded, List.append_nil, List.map_map,
    CompUnit.defns, List.map_map]
  rfl

/-- At the index of a function of the layout is its code. -/
theorem Linkage.holds (h : e.Linkage ns name art p a plan bin e₁ e₂ e₃ s inst function values frame)
    (hp : p.Built u fns depth new) {i : Nat} {f : Codegen.Linked} (hf : p.layout.funcs[i]? = some f) :
    inst.funcs[p.layout.funcImports.length + i]? =
        some ((e₁.bindVars name plan).store.funcs.size + i) ∧
      LoadedUnit.Holds { unit := u, program := p, depth, inst } s f.defn
        ((e₁.bindVars name plan).store.funcs.size + i) := by
  obtain ⟨code, hcode, hfunction⟩ := hp.code_of_func hf
  obtain ⟨hindex, k, hcallee⟩ := h.placed.funcs i code hcode
  refine ⟨hindex, _, k, code, ?_, hfunction, hcallee⟩
  rw [h.placed.instances, Array.getElem?_push_size]

/-- The unit is in the store that its instance is made in. -/
theorem Linkage.in_store (h : e.Linkage ns u.name art p a plan bin e₁ e₂ e₃ s inst function values frame)
    (hgenerated : Program.ofUnit u fns depth = .ok p) (hp : p.Built u fns depth new)
    (hsize : p.toModule.encode.length < 0x100000000) :
    LoadedUnit.In fns s { unit := u, program := p, depth, inst } where
  generated := hgenerated
  placed := ⟨_, by rw [h.placed.instances, Array.getElem?_push_size]⟩
  found d hd := by
    obtain ⟨f, hf, rfl⟩ := List.mem_map.mp hd
    obtain ⟨i, hi⟩ := List.getElem?_of_mem hf
    have hfunc : p.layout.funcs[i]? = some f := by
      rw [hp.layout.funcs, List.getElem?_append_left (List.getElem?_eq_some_iff.mp hi).1, hi]
    exact ⟨_, (h.found _).trans (h.placed.lookup_func hp hsize h.exports hfunc
      (Codegen.definition?_exported hf).1), (h.holds hp hfunc).2⟩

end

/-- The engine has loaded the units in this order. The last that defines a name is the one that the table of
functions has for it, and calls in each unit lead where they led when it was loaded. -/
structure Chain (fns : List Defn) (ms : List LoadedUnit) (e : Engine) : Prop where
  proper : e.registry.Proper
  present : ∀ m ∈ ms, m.In fns e.store
  globals : ∀ x o, e.globals.get? x = some o → ∃ a, e.store.export? o x = some (.global a)
  funcs : ∀ x, (e.funcs.get? x).map (·.module) = (newest? ms x).map (·.unit.name)
  bound : ∀ (i : Nat) (m : LoadedUnit), ms[i]? = some m → m.Bound fns (ms.take i) e.store

section

variable {e e₁ e₂ e₃ e' : Engine} {ns ns' : String} {art : Artifact} {u : CompUnit} {fns : List Defn}
  {depth : Nat} {maxDepth : Int} {g : Codegen.Generated} {p : Program} {new : List Reached} {plan : Plan}
  {a : Prepared} {bin : List UInt8} {s : Store HostFn} {inst : Machine.Instance} {function : Nat}
  {values : List Int64} {frame : Frame} {ms : List LoadedUnit}

/-- What the search for providers and running code change is nothing to it. -/
theorem Chain.grown (h : e.Chain fns ms) (hproper : e₁.registry.Proper) (htables : e.SameTables e₁)
    (hgrown : e.store.Grown e₁.store) : e₁.Chain fns ms where
  proper := hproper
  present m hm := (h.present m hm).grown hgrown
  globals x o hx := (h.globals x o (htables.globals ▸ hx)).imp fun _ ha => hgrown.export? ha
  funcs x := htables.funcs ▸ h.funcs x
  bound i m hm := (h.bound i m hm).grown hgrown

/-- The definitions of a unit are published whose calls are bound. -/
theorem Chain.publish (h : e.Chain fns ms) {m : LoadedUnit} (hin : m.In fns e.store)
    (hbound : m.Bound fns ms e.store) {functions : List (String × Int)} {globals : List String}
    (hfunctions : functions.map (·.1) = m.defines)
    (hglobals : ∀ x ∈ globals, ∃ a, e.store.export? m.unit.name x = some (.global a)) :
    (e.publish m.unit.name functions globals).Chain fns (ms ++ [m]) where
  proper := h.proper
  present m' hm' := by
    obtain hold | hnew := List.mem_append.mp hm'
    · exact h.present m' hold
    · exact List.mem_singleton.mp hnew ▸ hin
  globals x o hx := by
    rw [globals_publish] at hx
    split at hx
    · rename_i hmem
      exact Option.some.inj hx ▸ hglobals x hmem
    · exact h.globals x o hx
  funcs x := by
    rw [newest?_append, ← hfunctions]
    obtain ⟨arity, hmem, heq⟩ | ⟨hmem, heq⟩ := funcs_publish e m.unit.name functions globals x
    · rw [heq, if_pos (List.mem_map_of_mem (f := (·.1)) hmem)]
      rfl
    · rw [heq, if_neg hmem, h.funcs x]
  bound i m' hi := by
    rw [List.getElem?_append] at hi
    split at hi
    · rename_i hlt
      rw [List.take_append_of_le_length hlt.le]
      exact h.bound i m' hi
    · rename_i hle
      obtain ⟨hzero, rfl⟩ : i - ms.length = 0 ∧ m = m' := by
        simpa [List.getElem?_singleton] using hi
      rw [List.take_left' (by omega)]
      exact hbound

/-- The calls in a unit that is linked are bound. -/
theorem Chain.bound_linkage (h : e.Chain fns ms)
    (hlinkage : e.Linkage ns u.name art p a plan bin e₁ e₂ e₃ s inst function values frame)
    (hp : p.Built u fns depth new) (hmade : art.Made u fns maxDepth g)
    (hmodule : g.module = p.withManifest g.manifest) :
    LoadedUnit.Bound fns ms s { unit := u, program := p, depth, inst } where
  shared q d hq hd := by
    obtain ⟨i, f, hf, rfl, hindex⟩ := hp.layout.callIndex_of_shared hq.1 hq.2 hd
    obtain ⟨haddress, hholds⟩ := hlinkage.holds hp hf
    exact ⟨_, by rw [LoadedUnit.callee?, hindex, haddress], hholds⟩
  newest q hq hd := by
    obtain ⟨params, himport, hindex⟩ := hp.layout.callIndex_of_import hq.1 hq.2 hd
    obtain ⟨address, callee, hexport, haddress, hcallee, -⟩ := hlinkage.placed.imports _ _ _ _ himport
    have hstands : List.Forall₂ (Codegen.Stands a.info.types) p.layout.imports a.info.imports := by
      rw [(prepare_made hmade hlinkage.prepared).1, hmodule]
      exact (Codegen.Program.toModule_spec (Codegen.Program.types_le (hmodule ▸ hmade.size))).1
    obtain ⟨k, hk⟩ := List.getElem?_of_mem himport
    obtain ⟨i, hi, hstand⟩ := Codegen.forall₂_getElem? hstands hk
    obtain ⟨hmodule, hname⟩ : envModule = i.module ∧ Symbol.qualify q.1 q.2 = i.name :=
      Prod.mk.inj (key_of_stands hstand)
    have hgrown : e.store.Grown (e₁.bindVars u.name plan).store := by
      have hsearched := searched_bound e u.name a
      rw [hlinkage.bound] at hsearched
      exact hsearched.kept.2.2.trans (ran_bindVars e₁ u.name plan).store
    have hprovided := target_of_slash h.proper hlinkage.bound (List.mem_of_getElem? hi) hmodule.symm
      (hname ▸ Symbol.slash_mem_qualify _ _)
    rw [← hmodule, ← hname] at hprovided
    obtain hglobal | ⟨arity, hfunc⟩ := hprovided
    · obtain ⟨b, hb⟩ := h.globals _ _ hglobal
      cases (hgrown.export? hb).symm.trans hexport
    · have hnewest := h.funcs (Symbol.qualify q.1 q.2)
      rw [hfunc] at hnewest
      obtain ⟨owner, howner, hmod⟩ := Option.map_eq_some_iff.mp hnewest.symm
      obtain ⟨hmem, d, hd, hdname⟩ := mem_of_newest? howner
      obtain ⟨b, hb, hholds⟩ := (h.present owner hmem).found d hd
      rw [hmod, hdname] at hb
      cases (hgrown.export? hb).symm.trans hexport
      exact ⟨owner, address, howner, by rw [LoadedUnit.callee?, hindex, haddress], d, hd, hdname,
        hholds.grown (hgrown.trans (Store.grown_instantiate? hlinkage.started.made))⟩

/-- One more unit is loaded. -/
theorem Chain.load (h : e.Chain fns ms) (hnamed : e.Named) (hmade : art.Made u fns maxDepth g)
    (hnew : e.modules.get? u.name = none) (hsmall : (e.begin art u.name).RewritesSmall art u.name)
    {entry : EntryPoint} (hload : e.load ns (some art) u.name = (e', ns', .ok entry)) :
    ∃ m, m.unit = u ∧ e'.Chain fns (ms ++ [m]) := by
  obtain ⟨failure, -, heq⟩ | ⟨-, record, result, metrics, hget, -, -⟩ | ⟨hrefusal, -, heq⟩ :=
    load_cases e ns art u.name
  · cases heq.symm.trans hload
  · cases hnew.symm.trans hget
  have hname := loadable_of_refusal? hrefusal
  rw [heq, loadNew] at hload
  rcases hlink : (e.begin art u.name).link ns art u.name with ⟨e₀, ns₀, failure | entry₀⟩
  · rw [hlink] at hload
    cases hload
  rw [hlink] at hload
  obtain ⟨rfl, -⟩ := Prod.mk.inj hload
  obtain ⟨p, hgenerated, hmanifest, hmodule⟩ := Codegen.generate_eq_ok hmade.generated
  obtain ⟨new, hp⟩ := Program.ofUnit_built hgenerated
  obtain ⟨a, plan, bin, e₁, e₂, e₃, s, inst, function, values, frame, hlinkage, rfl, -, -⟩ :=
    link_made (e := e.begin art u.name) hmade hp hmodule hname
      (fun x hx => hnamed.free hname hnew hx) hsmall hlink (.inl rfl)
  have hbegun : (e.begin art u.name).Chain fns ms := ⟨h.proper, h.present, h.globals, h.funcs, h.bound⟩
  have hsize := hmade.toModule_lt hmodule
  have hin := (hlinkage.in_store hgenerated hp hsize).grown hlinkage.started.grown
  have hbound := (hbegun.bound_linkage hlinkage hp hmade hmodule).grown hlinkage.started.grown
  -- the search for providers and the run lead from one engine to the other
  have hsearched := searched_bound (e.begin art u.name) u.name a
  have hproper := proper_bound hbegun.proper u.name a
  rw [hlinkage.bound] at hsearched hproper
  have hran := hlinkage.started.runs
  have hended : Chain fns ms { e₃ with env := frame.env } := by
    refine hbegun.grown ?_ (hsearched.tables.trans hran.tables)
      (hsearched.kept.2.2.trans hran.store)
    obtain ⟨_, _, _, heq, -⟩ := hran
    rw [heq]
    exact hproper
  have hfunctions : g.manifest.functions.map (·.1) = u.defns.map Defn.qualified :=
    hmanifest ▸ map_fst_functions hp
  have hglobals : ∀ x ∈ g.module.info.exportedGlobals,
      ∃ a, e₃.store.export? u.name x = some (.global a) := by
    intro x hx
    obtain ⟨i, d, hd, rfl⟩ := mem_exportedGlobals hmodule hx
    exact ⟨_, hlinkage.started.grown.export?
      ((hlinkage.found _).trans (hlinkage.placed.lookup_global hsize hlinkage.exports hd))⟩
  have hpublished := hended.publish hin hbound hfunctions hglobals
  exact ⟨_, rfl, hpublished.proper, hpublished.present, hpublished.globals, hpublished.funcs,
    hpublished.bound⟩

end

end Engine

end WasmLisp
