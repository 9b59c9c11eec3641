import Mathlib
import WasmLisp.Proofs.Codegen.Refused

/-!
# Which preamble functions a module has

A module has the functions of its unit and those of the preamble that it needs, and nothing else of the
preamble.

* `Preamble.Inward`: the functions of a preamble are in the core namespace and call functions of that
  namespace only;
* `Called`: what calls reach, from the unit through the preamble functions that calls stand for;
* `Links`: the preamble functions that are called so and that the unit does not define itself
  (`links_of_built`);
* `generate_links`: a generated module has these functions after the unit's own, exports none of them,
  and imports every other function that is called.
-/

namespace WasmLisp

open Codegen (callsOf mem_callsOf)

/-! ## Functions of a preamble -/

/-- All vars that ever were are in the namespace. -/
def Env.Within (e : Env) (ns : String) : Prop := ∀ id v, e.cell? id = some v → v.ns = ns

namespace Env.Within

variable {e : Env} {ns : String}

theorem initial (ns : String) : Env.initial.Within ns := by
  intro id v hv
  have hcells : Env.initial.cells = #[] := by decide
  simp [cell?, hcells] at hv

theorem intern (h : e.Within ns) (name : String) (kind : VarKind) (arity : Int) :
    (e.intern ns name kind arity).1.Within ns := by
  intro id v hv
  obtain ⟨id', -, heq⟩ | ⟨-, heq⟩ := intern_cases e ns name kind arity
  · rw [heq, cell?_modifyCell] at hv
    split at hv
    · obtain ⟨w, hw, rfl⟩ := Option.map_eq_some_iff.mp hv
      exact h id w hw
    · exact h id v hv
  · rw [heq, cell?_addVar] at hv
    split at hv
    · cases hv
      rfl
    · exact h id v hv

theorem ns_eq (h : e.Within ns) {current : String} {v : Var} (hv : e.Sees current v) : v.ns = ns := by
  obtain ⟨text, htext⟩ := hv
  obtain ⟨id, -, hcell⟩ := Option.bind_eq_some_iff.mp htext
  exact h id v hcell

end Env.Within

/-- The pair that calls of a function use. -/
def Defn.key (d : Defn) : String × String := (d.ns, d.name)

namespace Preamble

/-- Functions of the core namespace that call such functions only, no two of one name. -/
structure Inward (fns : List Defn) : Prop where
  ns : ∀ d ∈ fns, d.ns = Env.coreNs
  calls : ∀ d ∈ fns, ∀ p ∈ callsOf d.node.flatten, p.1 = Env.coreNs
  nodup : (fns.map Defn.qualified).Nodup

theorem map_qualified_define (fns : List Defn) (d : Defn) :
    (define fns d).map Defn.qualified =
      if d.qualified ∈ fns.map Defn.qualified then fns.map Defn.qualified
      else fns.map Defn.qualified ++ [d.qualified] := by
  have hany : fns.any (·.qualified == d.qualified) = true ↔ d.qualified ∈ fns.map Defn.qualified := by
    simp
  unfold define
  by_cases h : d.qualified ∈ fns.map Defn.qualified
  · rw [if_pos (hany.mpr h), if_pos h, List.map_map]
    refine List.map_congr_left fun d' _ => ?_
    by_cases heq : d'.qualified = d.qualified
    · simp [heq]
    · simp [heq]
  · rw [if_neg (mt hany.mp h), if_neg h, List.map_append]
    rfl

/-- A function that analysis gives in the core namespace goes with the others. -/
theorem Inward.define {fns : List Defn} (h : Inward fns) {d : Defn} {e e' : Env}
    (he : e.Within Env.coreNs) (hd : d.node.Stands Env.coreNs e e') : Inward (define fns d) := by
  have hns : d.ns = Env.coreNs := by
    obtain ⟨ns, name, params, body⟩ := d
    cases hd with
    | expr h => cases h
    | defn name params h => rfl
  have hcalls : ∀ p ∈ callsOf d.node.flatten, p.1 = Env.coreNs := by
    intro p hp
    -- a call is of a var that the environment had then, and all of these are in the namespace
    obtain ⟨args, hin⟩ := mem_callsOf.mp hp
    obtain ⟨-, hparts⟩ := hd.parts (I := (·.Within Env.coreNs))
      (fun _ name kind arity h => h.intern name kind arity) he
    obtain ⟨e₁, v, he₁, hv, hvns, -⟩ := (hparts _ hin).call
    exact hvns ▸ he₁.ns_eq hv
  constructor
  · intro d' hd'
    rcases mem_define hd' with hd' | rfl
    · exact h.ns d' hd'
    · exact hns
  · intro d' hd'
    rcases mem_define hd' with hd' | rfl
    · exact h.calls d' hd'
    · exact hcalls
  · rw [map_qualified_define]
    split
    · exact h.nodup
    · rename_i hnew
      exact h.nodup.append (List.nodup_singleton _) (by simpa using hnew)

theorem Inward.loadForms {forms : List Form} {e : Env} {fns fns' : List Defn}
    (h : Inward fns) (he : e.Within Env.coreNs) (hload : loadForms e fns forms = .ok fns') :
    Inward fns' := by
  induction forms generalizing e fns with
  | nil =>
    cases hload
    exact h
  | cons f forms ih =>
    rw [Preamble.loadForms] at hload
    split at hload
    · cases hload
    · rename_i e' ns name params body hanalyzed
      have hstands := analyze_stands hanalyzed
      obtain ⟨he', -⟩ := hstands.parts (I := (·.Within Env.coreNs))
        (fun _ name kind arity h => h.intern name kind arity) he
      exact ih (h.define (d := { ns, name, params, body }) he hstands) he' hload
    · cases hload

theorem inward_functions (p : Preamble) : Inward p.functions := by
  have hnil : Inward [] := ⟨by simp, by simp, List.nodup_nil⟩
  unfold functions
  split
  · rename_i fns hload
    unfold load at hload
    split at hload
    · cases hload
    · exact hnil.loadForms (Env.Within.initial _) hload
  · exact hnil

end Preamble

/-- The functions that a module imports: where from, and by which name. -/
def Binary.Module.functionImports (m : Binary.Module) : List (String × String) :=
  m.imports.filterMap fun i => if i.isFunc then some (i.module, i.name) else none

/-- The functions that a unit defines, in the order of its nodes. -/
def CompUnit.defns (u : CompUnit) : List Defn :=
  (u.nodes.filterMap Codegen.definition?).map (·.defn)

namespace Codegen

open Machine (Instr)
open Artifact (envModule varModule varDefModule)
open Preamble (Inward)

variable {u : CompUnit} {fns : List Defn} {new : List Reached} {l : Layout} {p : String × String}

theorem map_key_defns (u : CompUnit) :
    u.defns.map Defn.key = (u.nodes.filterMap definition?).map Linked.key := by
  rw [CompUnit.defns, List.map_map]
  rfl

theorem shared?_eq_some_iff (hfns : Inward fns) {d : Defn} :
    shared? fns p = some d ↔ d ∈ fns ∧ d.qualified = Symbol.qualify p.1 p.2 := by
  constructor
  · intro h
    exact ⟨List.mem_of_find?_eq_some h, by simpa [shared?] using List.find?_some h⟩
  · rintro ⟨hd, hname⟩
    cases hfind : shared? fns p with
    | none =>
      rw [shared?, List.find?_eq_none] at hfind
      exact absurd (beq_iff_eq.mpr hname) (hfind d hd)
    | some d' =>
      have hname' : d'.qualified = Symbol.qualify p.1 p.2 := by
        simpa [shared?] using List.find?_some hfind
      rw [List.inj_on_of_nodup_map hfns.nodup (List.mem_of_find?_eq_some hfind) hd
        (hname'.trans hname.symm)]

/-! ## What calls reach -/

/-- The pairs that calls reach: those in the unit, and those in the preamble functions that reached
pairs stand for. A function of the unit hides the preamble function of its pair. -/
inductive Called (u : CompUnit) (fns : List Defn) : String × String → Prop where
  | unit {p : String × String} (h : p ∈ callsOf u.nodes) : Called u fns p
  | shared {p q : String × String} {d : Defn} (h : Called u fns p)
    (hout : p ∉ u.defns.map Defn.key) (hd : shared? fns p = some d)
    (hq : q ∈ callsOf d.node.flatten) : Called u fns q

/-- The preamble functions that a unit needs: those that calls reach and that the unit has not got. None
is there twice, neither among them nor beside the unit's own. -/
structure Links (u : CompUnit) (fns linked : List Defn) : Prop where
  nodup : ((u.defns ++ linked).map Defn.key).Nodup
  mem : ∀ d, d ∈ linked ↔ d ∈ fns ∧ d.key ∉ u.defns.map Defn.key ∧ Called u fns d.key

/-- No called namespace has a slash in its name, if none has that the unit calls. -/
theorem Called.slash_notMem (hfns : Inward fns)
    (hu : ∀ ns name args, .invoke ns name args ∈ u.nodes → '/' ∉ ns.toList) (h : Called u fns p) :
    '/' ∉ p.1.toList := by
  cases h with
  | unit h =>
    obtain ⟨args, hin⟩ := mem_callsOf.mp h
    exact hu _ _ _ hin
  | shared h hout hd hq =>
    rw [hfns.calls _ (List.mem_of_find?_eq_some hd) _ hq]
    decide

/-- What a layout of a unit links is called, and what it imports it has no function for. -/
theorem ofUnit_called (h : Layout.ofUnit u fns = .ok l) :
    ∃ new, Layout.Built u fns new l ∧ (∀ r ∈ new, Called u fns r.1) ∧
      ∀ w ∈ l.imports, ∃ n ∈ reachedNodes u new, wantedBy? n = some w ∧ l.Lacks n :=
  ofUnit_linked h (fun _ hp => .unit hp) fun _ _ hp hout hd _ hq =>
    .shared hp (by rwa [map_key_defns]) hd hq

section

variable (hb : l.Built u fns new) (hcalled : ∀ r ∈ new, Called u fns r.1)

include hb

theorem Layout.Built.keys_eq : l.keys = u.defns.map Defn.key ++ new.map (·.1) := by
  rw [hb.keys, map_key_defns]

theorem Layout.Built.notMem_defns {r : Reached} (hr : r ∈ new) : r.1 ∉ u.defns.map Defn.key := by
  intro hin
  have hnodup := hb.distinct.keys
  rw [hb.keys_eq] at hnodup
  exact List.disjoint_of_nodup_append hnodup hin (List.mem_map_of_mem hr)

/-- All that is called is called in a tree that code is generated of. -/
theorem Layout.Built.mem_callsOf_of_called (h : Called u fns p) :
    p ∈ callsOf (reachedNodes u new) := by
  induction h with
  | unit h =>
    refine callsOf_subset ?_ h
    rw [reachedNodes, Node.flattenAll_append]
    exact List.subset_append_left _ _
  | @shared p q d h hout hd hq ih =>
    -- linking has settled the call, and the unit has no function for it
    have hkey : p ∈ l.keys := (hb.settled p ih).resolve_right (by simp [hd])
    rw [hb.keys_eq, List.mem_append] at hkey
    obtain ⟨r, hr, rfl⟩ := List.mem_map.mp (hkey.resolve_left hout)
    have hdefn : r.2 = d := Option.some.inj ((hb.found r hr).symm.trans hd)
    subst hdefn
    have hroot : r.2.node ∈ u.forms ++ new.map (·.2.node) :=
      List.mem_append_right _ (List.mem_map_of_mem hr)
    exact callsOf_subset (Node.flatten_subset_flattenAll hroot) hq

/-- The functions that calls do not find in the layout are those that neither the unit nor the preamble
has. -/
theorem Layout.Built.notMem_keys_iff (h : Called u fns p) :
    p ∉ l.keys ↔ p ∉ u.defns.map Defn.key ∧ shared? fns p = none := by
  have hsettled := hb.settled p (hb.mem_callsOf_of_called h)
  rw [hb.keys_eq, List.mem_append, not_or]
  refine and_congr_right fun hout => ⟨fun hnew => hsettled.resolve_left ?_, fun hnone hnew => ?_⟩
  · rw [hb.keys_eq, List.mem_append]
    exact not_or.mpr ⟨hout, hnew⟩
  · obtain ⟨r, hr, rfl⟩ := List.mem_map.mp hnew
    rw [hb.found r hr] at hnone
    cases hnone

include hcalled

/-- The calls in the trees that code is generated of are what calls reach. -/
theorem Layout.Built.mem_callsOf_iff : p ∈ callsOf (reachedNodes u new) ↔ Called u fns p := by
  refine ⟨fun h => ?_, hb.mem_callsOf_of_called⟩
  rw [reachedNodes, Node.flattenAll_append, callsOf_append, List.mem_append] at h
  rcases h with h | h
  · exact .unit h
  · obtain ⟨args, hin⟩ := mem_callsOf.mp h
    obtain ⟨root, hroot, hin⟩ := Node.mem_flattenAll.mp hin
    obtain ⟨r, hr, rfl⟩ := List.mem_map.mp hroot
    exact .shared (hcalled r hr) (hb.notMem_defns hr) (hb.found r hr) (mem_callsOf.mpr ⟨args, hin⟩)

/-- From the environment comes what is called and is nowhere defined, and what is foreign. -/
theorem Layout.Built.mem_imports_iff
    (hwanted : ∀ w ∈ l.imports, ∃ n ∈ reachedNodes u new, wantedBy? n = some w ∧ l.Lacks n)
    (name : String) : (∃ params results, .func envModule name params results ∈ l.imports) ↔
      (∃ q, Called u fns q ∧ q ∉ u.defns.map Defn.key ∧ shared? fns q = none ∧
        name = Symbol.qualify q.1 q.2) ∨
      ∃ args, .foreignCall name args ∈ reachedNodes u new := by
  constructor
  · rintro ⟨params, results, hw⟩
    obtain ⟨n, hn, hwants, hout⟩ := hwanted _ hw
    cases n with
    | invoke ns f args =>
      cases hwants
      have hcall : Called u fns (ns, f) :=
        (hb.mem_callsOf_iff hcalled).mp (mem_callsOf.mpr ⟨args, hn⟩)
      obtain ⟨hown, hnone⟩ := (hb.notMem_keys_iff hcall).mp hout
      exact .inl ⟨(ns, f), hcall, hown, hnone, rfl⟩
    | foreignCall f args =>
      cases hwants
      exact .inr ⟨args, hn⟩
    | varRef ns f | bindVar ns f =>
      exact absurd hwants (by simp [wantedBy?, envModule, varModule, varDefModule])
    | _ => cases hwants
  · rintro (⟨q, hcall, hown, hnone, rfl⟩ | ⟨args, hin⟩)
    · obtain ⟨args, hin⟩ := mem_callsOf.mp (hb.mem_callsOf_of_called hcall)
      have hout : q ∉ l.keys := (hb.notMem_keys_iff hcall).mpr ⟨hown, hnone⟩
      have hplace := (hb.places _ hin).resolve_left hout
      exact ⟨_, _, hplace⟩
    · exact ⟨_, _, hb.places _ hin⟩

variable (hfns : Inward fns)
  (hu : ∀ ns name args, .invoke ns name args ∈ u.nodes → '/' ∉ ns.toList)

include hfns hu

/-- A linked function is called by its own pair. -/
theorem Layout.Built.key_eq {r : Reached} (hr : r ∈ new) : r.2.key = r.1 := by
  obtain ⟨hmem, hname⟩ := (shared?_eq_some_iff hfns).mp (hb.found r hr)
  have hcore : '/' ∉ r.2.ns.toList := by
    rw [hfns.ns _ hmem]
    decide
  obtain ⟨hns, hname⟩ :=
    Symbol.qualify_inj hcore ((hcalled r hr).slash_notMem hfns hu) hname
  exact Prod.ext hns hname

/-- The preamble functions in a layout are those that the unit needs. -/
theorem links_of_built : Links u fns (new.map (·.2)) := by
  have hkeys : (new.map (·.2)).map Defn.key = new.map (·.1) := by
    rw [List.map_map]
    exact List.map_congr_left fun r hr => hb.key_eq hcalled hfns hu hr
  constructor
  · rw [List.map_append, hkeys, ← hb.keys_eq]
    exact hb.distinct.keys
  · intro d
    constructor
    · intro hd
      obtain ⟨r, hr, rfl⟩ := List.mem_map.mp hd
      rw [hb.key_eq hcalled hfns hu hr]
      exact ⟨List.mem_of_find?_eq_some (hb.found r hr), hb.notMem_defns hr, hcalled r hr⟩
    · rintro ⟨hd, hout, hcall⟩
      -- the call is settled, and there is a function for it: it has been placed
      have hshared : shared? fns d.key = some d := (shared?_eq_some_iff hfns).mpr ⟨hd, rfl⟩
      have hkey : d.key ∈ l.keys :=
        (hb.settled _ (hb.mem_callsOf_of_called hcall)).resolve_right (by simp [hshared])
      rw [hb.keys_eq, List.mem_append] at hkey
      obtain ⟨r, hr, hrkey⟩ := List.mem_map.mp (hkey.resolve_left hout)
      have hfound := hb.found r hr
      rw [hrkey, hshared] at hfound
      cases hfound
      exact List.mem_map_of_mem hr

end

/-! ## Imports and code -/

/-- The module, the name and the kind of what is wanted. -/
def Wanted.label : Wanted → String × String × UInt8
  | .func module name _ _ => (module, name, Binary.kindFunc)
  | .global name => (envModule, name, Binary.kindGlobal)

/-- Imports go after those that are there, however many signatures there are. -/
theorem foldl_addWanted_imports (ws : List Wanted) (m : Binary.Module) :
    (ws.foldl addWanted m).imports.map (fun i => (i.module, i.name, i.desc.kind)) =
      m.imports.map (fun i => (i.module, i.name, i.desc.kind)) ++ ws.map Wanted.label ∧
    (ws.foldl addWanted m).funcs = m.funcs := by
  induction ws generalizing m with
  | nil => exact ⟨by simp, rfl⟩
  | cons w ws ih =>
    obtain ⟨himports, hfuncs⟩ := ih (addWanted m w)
    rw [List.foldl_cons, himports, hfuncs]
    cases w with
    | func module name params results =>
      have htypes := (addType_spec m (.ofCounts params results)).1
      simp only [addWanted]
      rw [htypes]
      exact ⟨by simp [Wanted.label, Binary.ImportDesc.kind], rfl⟩
    | global name => exact ⟨by simp [addWanted, Wanted.label, Binary.ImportDesc.kind], rfl⟩

/-- So do functions. -/
theorem foldl_addCode_funcs (codes : List Code) (m : Binary.Module) :
    (codes.foldl addCode m).funcs.map (fun f => (f.locals, f.body)) =
      m.funcs.map (fun f => (f.locals, f.body)) ++
        codes.map (fun c => (List.replicate c.locals Binary.i64, Instr.encodeAll c.body)) ∧
    (codes.foldl addCode m).imports = m.imports := by
  induction codes generalizing m with
  | nil => exact ⟨by simp, rfl⟩
  | cons code codes ih =>
    obtain ⟨hfuncs, himports⟩ := ih (addCode m code)
    rw [List.foldl_cons, hfuncs, himports]
    have htypes := (addType_spec m (.ofCounts code.params 1)).1
    simp only [addCode]
    rw [htypes]
    exact ⟨by simp, rfl⟩

/-- A walk over the exported functions of a layout is one over the unit's own. -/
theorem Layout.Built.filterMap_exported {β : Type} (h : l.Built u fns new) (f : Defn → Nat → β) :
    (l.funcs.zipIdx.filterMap fun x => if x.1.exported then some (f x.1.defn x.2) else none) =
      u.defns.zipIdx.map fun x => f x.1 x.2 := by
  have hlinked : ∀ k, ((new.map fun r => ({ defn := r.2, exported := false } : Linked)).zipIdx
      k).filterMap (fun x => if x.1.exported then some (f x.1.defn x.2) else none) = [] := by
    intro k
    refine List.filterMap_eq_nil_iff.mpr fun x hx => ?_
    obtain ⟨r, -, hr⟩ := List.mem_map.mp (List.fst_mem_of_mem_zipIdx hx)
    rw [← hr]
    rfl
  rw [h.funcs, List.zipIdx_append, List.filterMap_append, hlinked, List.append_nil,
    CompUnit.defns, List.zipIdx_map, List.map_map, ← List.filterMap_eq_map]
  refine List.filterMap_congr fun x hx => ?_
  rw [if_pos (definition?_exported (List.fst_mem_of_mem_zipIdx hx)).1]
  rfl

namespace Program

theorem map_imports_toModule (p : Program) :
    p.toModule.imports.map (fun i => (i.module, i.name, i.desc.kind)) =
      p.layout.imports.map Wanted.label := by
  have hcodes := (foldl_addCode_funcs p.codes (p.layout.imports.foldl addWanted {})).2
  have himports := (foldl_addWanted_imports p.layout.imports {}).1
  rw [← hcodes] at himports
  exact himports

theorem map_funcs_toModule (p : Program) :
    p.toModule.funcs.map (fun f => (f.locals, f.body)) =
      p.codes.map fun c => (List.replicate c.locals Binary.i64, Instr.encodeAll c.body) := by
  have hcodes := (foldl_addCode_funcs p.codes (p.layout.imports.foldl addWanted {})).1
  rw [(foldl_addWanted_imports p.layout.imports {}).2] at hcodes
  exact hcodes

theorem functionImports_toModule (p : Program) :
    p.toModule.functionImports = p.layout.imports.filterMap Wanted.func? := by
  have hlabels := congrArg
    (List.filterMap fun x => if x.2.2 == Binary.kindFunc then some (x.1, x.2.1) else none)
    p.map_imports_toModule
  rw [List.filterMap_map, List.filterMap_map] at hlabels
  refine hlabels.trans (List.filterMap_congr fun w _ => ?_)
  cases w <;> rfl

theorem importedFuncs_toModule (p : Program) :
    p.toModule.importedFuncs = p.layout.funcImports.length := by
  have hlabels := congrArg (List.countP fun x => x.2.2 == Binary.kindFunc) p.map_imports_toModule
  rw [List.countP_map, List.countP_map] at hlabels
  refine hlabels.trans ?_
  rw [Layout.funcImports, ← List.countP_eq_length_filter]
  refine List.countP_congr fun w _ => ?_
  cases w <;> simp [Wanted.label, Binary.kindFunc, Binary.kindGlobal]

theorem importedGlobals_toModule (p : Program) :
    p.toModule.importedGlobals = p.layout.globalImports.length := by
  have hlabels := congrArg (List.countP fun x => x.2.2 == Binary.kindGlobal) p.map_imports_toModule
  rw [List.countP_map, List.countP_map] at hlabels
  refine hlabels.trans ?_
  rw [Layout.globalImports, List.length_filterMap_eq_countP]
  refine List.countP_congr fun w _ => ?_
  cases w <;> simp [Wanted.label, Binary.kindFunc, Binary.kindGlobal]

/-- The exports are the unit's own functions, its data symbols and the entry, by their places. -/
theorem exports_eq {p : Program} {depth : Nat} (h : p.Built u fns depth new) :
    p.exports =
      (u.defns.zipIdx.map fun x =>
        { name := x.1.qualified, kind := Binary.kindFunc
          index := UInt32.ofNat (p.layout.funcImports.length + x.2) }) ++
      ((u.nodes.filterMap dataSymbol?).zipIdx.map fun x =>
        { name := x.1.1, kind := Binary.kindGlobal
          index := UInt32.ofNat (p.layout.globalImports.length + x.2) }) ++
      [{ name := u.entrySymbol, kind := Binary.kindFunc
         index := UInt32.ofNat (p.layout.funcImports.length + p.layout.funcs.length) }] := by
  have hown := h.layout.filterMap_exported fun d i =>
    ({ name := d.qualified, kind := Binary.kindFunc
       index := UInt32.ofNat (p.layout.funcImports.length + i) } : Binary.Export)
  rw [← hown, ← h.layout.globals, ← h.name]
  rfl

theorem layout_eq {p : Program} {depth : Nat} (h : ofUnit u fns depth = .ok p) :
    Layout.ofUnit u fns = .ok p.layout := by
  rw [ofUnit] at h
  obtain ⟨l, hl, h⟩ := Except.bind_eq_ok h
  obtain ⟨functions, -, h⟩ := Except.bind_eq_ok h
  obtain ⟨entry, -, h⟩ := Except.bind_eq_ok h
  cases h
  exact hl

end Program

/-! ## Generated modules -/

/-- The module of a unit with preamble functions: the code of the unit's own functions, then that of
the preamble functions, then the entry. Only the unit's own and the entry are exported. -/
structure Carries (u : CompUnit) (linked : List Defn) (c : Context) (m : Binary.Module) :
    Prop where
  placed : c.layout.funcs.map (·.defn) = u.defns ++ linked
  code : ∃ codes entry, List.Forall₂ (fun d code => functionCode c d = .ok code) (u.defns ++ linked) codes ∧
    entryCode c u.forms = .ok entry ∧
    m.funcs.map (fun f => (f.locals, f.body)) = (codes ++ [entry]).map fun c =>
      (List.replicate c.locals Binary.i64, Instr.encodeAll c.body)
  exports : m.exports =
    (u.defns.zipIdx.map fun x =>
      { name := x.1.qualified, kind := Binary.kindFunc
        index := UInt32.ofNat (m.importedFuncs + x.2) }) ++
    ((u.nodes.filterMap dataSymbol?).zipIdx.map fun x =>
      { name := x.1.1, kind := Binary.kindGlobal
        index := UInt32.ofNat (m.importedGlobals + x.2) }) ++
    [{ name := u.entrySymbol, kind := Binary.kindFunc
       index := UInt32.ofNat (m.importedFuncs + (u.defns ++ linked).length) }]

/-- The function imports of a module of a unit with preamble functions. None is there twice. From the
environment come the functions that are called and that neither the unit nor the preamble has, and
foreign ones; a name of the preamble is among them only for a foreign function. -/
structure Borrows (u : CompUnit) (fns linked : List Defn) (m : Binary.Module) : Prop where
  nodup : m.functionImports.Nodup
  mem : ∀ name, (envModule, name) ∈ m.functionImports ↔
    (∃ p, Called u fns p ∧ p ∉ u.defns.map Defn.key ∧ shared? fns p = none ∧
      name = Symbol.qualify p.1 p.2) ∨
    ∃ args, .foreignCall name args ∈ Node.flattenAll (u.forms ++ linked.map Defn.node)
  preamble : ∀ d ∈ fns, (envModule, d.qualified) ∈ m.functionImports →
    ∃ args, .foreignCall d.qualified args ∈ Node.flattenAll (u.forms ++ linked.map Defn.node)

theorem Program.Built.carries {p : Program} {depth : Nat} (h : p.Built u fns depth new)
    (customs : List Binary.Custom) :
    Carries u (new.map (·.2)) { layout := p.layout, maxDepth := depth }
      { p.toModule with customs } := by
  have hplaced : p.layout.funcs.map (·.defn) = u.defns ++ new.map (·.2) := by
    rw [h.layout.funcs, List.map_append, List.map_map, CompUnit.defns]
    rfl
  have hlength : p.layout.funcs.length = (u.defns ++ new.map (·.2)).length := by
    rw [← hplaced, List.length_map]
  refine ⟨hplaced, ⟨p.functions, p.entry, ?_, h.entry, p.map_funcs_toModule⟩, ?_⟩
  · rw [← hplaced, List.forall₂_map_left_iff]
    exact h.functions
  · show p.exports = (u.defns.zipIdx.map fun x =>
      { name := x.1.qualified, kind := Binary.kindFunc
        index := UInt32.ofNat (p.toModule.importedFuncs + x.2) }) ++
      ((u.nodes.filterMap dataSymbol?).zipIdx.map fun x =>
      { name := x.1.1, kind := Binary.kindGlobal
        index := UInt32.ofNat (p.toModule.importedGlobals + x.2) }) ++
      [{ name := u.entrySymbol, kind := Binary.kindFunc
         index := UInt32.ofNat (p.toModule.importedFuncs + (u.defns ++ new.map (·.2)).length) }]
    rw [Program.exports_eq h, p.importedFuncs_toModule, p.importedGlobals_toModule, hlength]

theorem mem_functionImports {p : Program} {module name : String} :
    (module, name) ∈ p.toModule.functionImports ↔
      ∃ params results, .func module name params results ∈ p.layout.imports := by
  rw [p.functionImports_toModule, List.mem_filterMap]
  constructor
  · rintro ⟨w, hw, hname⟩
    cases w with
    | func m n params results =>
      cases hname
      exact ⟨params, results, hw⟩
    | global n => cases hname
  · rintro ⟨params, results, hw⟩
    exact ⟨_, hw, rfl⟩

/-- What is imported is called or foreign, and all that is so is imported. -/
theorem Program.Built.borrows {p : Program} {depth : Nat} (h : p.Built u fns depth new)
    (hcalled : ∀ r ∈ new, Called u fns r.1)
    (hwanted : ∀ w ∈ p.layout.imports, ∃ n ∈ reachedNodes u new, wantedBy? n = some w ∧
      p.layout.Lacks n) (customs : List Binary.Custom) :
    Borrows u fns (new.map (·.2)) { p.toModule with customs } := by
  have hnodes : Node.flattenAll (u.forms ++ (new.map (·.2)).map Defn.node) = reachedNodes u new := by
    rw [List.map_map]
    rfl
  have hmem := fun name =>
    mem_functionImports.trans (h.layout.mem_imports_iff hcalled hwanted name)
  refine ⟨?_, fun name => by rw [hnodes]; exact hmem name, fun d hd hin => ?_⟩
  · show p.toModule.functionImports.Nodup
    rw [p.functionImports_toModule]
    exact h.layout.tidy.funcs
  · -- a call of a name of the preamble has a function there
    rw [hnodes]
    refine ((hmem _).mp hin).resolve_left ?_
    rintro ⟨q, -, -, hnone, hname⟩
    exact absurd (beq_iff_eq.mpr hname) (List.find?_eq_none.mp hnone d hd)

/-- Linking comes to its end, and a generated module has just the preamble functions that the unit
needs: their code stands between that of the unit's own functions and the entry, they are not exported,
and what is imported is what is called and defined nowhere. This holds unless a called namespace has a
slash in its name. -/
theorem generate_links (u : CompUnit) (preamble : Preamble) (maxDepth : Int) :
    (∀ base, u.nodes.foldlM addDefinition {} = .ok base →
      Linking preamble.functions base u.forms
        (link preamble.functions (linkFuel preamble.functions u.forms) base u.forms)) ∧
    ∀ g, generate u preamble.functions maxDepth = .ok g →
      (∀ ns name args, .invoke ns name args ∈ u.nodes → '/' ∉ ns.toList) →
      ∃ l linked, Layout.ofUnit u preamble.functions = .ok l ∧ Links u preamble.functions linked ∧
        Carries u linked { layout := l, maxDepth := effectiveDepth maxDepth } g.module ∧
        Borrows u preamble.functions linked g.module := by
  refine ⟨fun base hbase => ?_, fun g hg hu => ?_⟩
  · obtain ⟨rfl, hdistinct⟩ := definitions_eq hbase ⟨List.nodup_nil, List.nodup_nil⟩
    exact linking_linkFuel _ _ hdistinct.keys
  · obtain ⟨p, hp, -, hmodule⟩ := generate_eq_ok hg
    have hl := Program.layout_eq hp
    obtain ⟨new, hlayout, hcalled, hwanted⟩ := ofUnit_called hl
    obtain ⟨new', hbuilt⟩ := Program.ofUnit_built hp
    have hbuilt : p.Built u preamble.functions (effectiveDepth maxDepth) new :=
      ⟨hlayout, hbuilt.functions, hbuilt.entry, hbuilt.name⟩
    rw [hmodule]
    exact ⟨p.layout, new.map (·.2), hl,
      links_of_built hlayout hcalled (Preamble.inward_functions preamble) hu,
      hbuilt.carries _, hbuilt.borrows hcalled hwanted _⟩

/-- Two functions that call each other, and one that nothing calls. -/
def mutualPreamble : Preamble where
  source := "(defn g [] 1) (defn h [] 2) (defn f [] (g)) (defn g [] (f))"

/-- A unit that calls the first of them, a function that it has instead of the third, and one that is
defined nowhere. -/
def mutualUnit : CompUnit where
  forms := [.defn "core" "h" [] (.invoke "core" "f" []), .invoke "core" "h" [],
    .invoke "user" "k" [], .invoke "user" "k" []]

theorem functions_mutualPreamble : mutualPreamble.functions =
    [{ ns := "core", name := "g", params := [], body := .invoke "core" "f" [] },
      { ns := "core", name := "h", params := [], body := .const 2 },
      { ns := "core", name := "f", params := [], body := .invoke "core" "g" [] }] := by
  cbv

theorem generate_links_mutual :
    (∃ base, mutualUnit.nodes.foldlM addDefinition {} = .ok base ∧
      Linking mutualPreamble.functions base mutualUnit.forms (link mutualPreamble.functions
        (linkFuel mutualPreamble.functions mutualUnit.forms) base mutualUnit.forms)) ∧
    ∃ g l linked, generate mutualUnit mutualPreamble.functions 0 = .ok g ∧
      Layout.ofUnit mutualUnit mutualPreamble.functions = .ok l ∧
      l.funcs.map (·.defn.qualified) = ["core/h", "core/f", "core/g"] ∧
      Links mutualUnit mutualPreamble.functions linked ∧
      Carries mutualUnit linked { layout := l, maxDepth := effectiveDepth 0 } g.module ∧
      Borrows mutualUnit mutualPreamble.functions linked g.module := by
  obtain ⟨hlinking, hlinks⟩ := generate_links mutualUnit mutualPreamble 0
  have hslash : ∀ ns name args, .invoke ns name args ∈ mutualUnit.nodes → '/' ∉ ns.toList := by
    intro ns name args h
    simp only [mutualUnit, CompUnit.nodes, Node.flattenAll, Node.flatten, List.mem_append,
      List.mem_cons, List.not_mem_nil, Node.invoke.injEq, reduceCtorEq, or_false, false_or] at h
    obtain ⟨rfl, -⟩ | ⟨rfl, -⟩ | ⟨rfl, -⟩ | ⟨rfl, -⟩ := h <;> decide
  have hok : (generate mutualUnit mutualPreamble.functions 0).isOk = true := by
    rw [functions_mutualPreamble]
    rfl
  have hnames : (Layout.ofUnit mutualUnit mutualPreamble.functions).map
      (fun l => l.funcs.map (·.defn.qualified)) = .ok ["core/h", "core/f", "core/g"] := by
    rw [functions_mutualPreamble]
    cbv
  refine ⟨⟨_, rfl, hlinking _ rfl⟩, ?_⟩
  cases hg : generate mutualUnit mutualPreamble.functions 0 with
  | error e =>
    rw [hg] at hok
    cases hok
  | ok g =>
    obtain ⟨l, linked, hl, hlinked⟩ := hlinks g hg hslash
    rw [hl] at hnames
    exact ⟨g, l, linked, rfl, hl, Except.ok.inj hnames, hlinked⟩

/-- A preamble function whose name starts with a slash. -/
def slashedPreamble : Preamble where
  source := "(defn /x [] 1)"

/-- An environment with a function whose namespace ends in one. -/
def slashedEnv : Env :=
  ((Preamble.declareAll slashedPreamble.functions .initial).intern "core/" "x" .fn 0).1

/-- Calls of both, as they are written there. -/
def slashedForms : List Form :=
  [.list [.sym { name := "x" } 1] 1, .list [.sym { ns := "core", name := "/x" } 1] 1]

/-- The unit of these forms. -/
def slashedUnit : CompUnit where
  ns := "core/"
  forms := [.invoke "core/" "x" [], .invoke "core" "/x" []]

theorem functions_slashedPreamble : slashedPreamble.functions =
    [{ ns := "core", name := "/x", params := [], body := .const 1 }] := by
  cbv

/-- A name that can be cut at two slashes is called by two pairs, and its function is there for each. -/
theorem linked_twice_for_slash :
    slashedForms.map (fun f => (f.analyze slashedEnv "core/").2.toOption) =
      slashedUnit.forms.map some ∧
    slashedPreamble.functions.map Defn.qualified = ["core//x"] ∧
    ∃ g l, generate slashedUnit slashedPreamble.functions 0 = .ok g ∧
      Layout.ofUnit slashedUnit slashedPreamble.functions = .ok l ∧
      l.funcs.map (·.defn.qualified) = ["core//x", "core//x"] ∧ g.module.funcs.length = 3 ∧
      g.module.functionImports = [] := by
  refine ⟨?_, by rw [functions_slashedPreamble]; rfl, ?_⟩
  · unfold slashedEnv
    rw [functions_slashedPreamble]
    cbv
  rw [functions_slashedPreamble]
  set fns : List Defn := [{ ns := "core", name := "/x", params := [], body := .const 1 }]
  have hnames : (Layout.ofUnit slashedUnit fns).map (fun l => l.funcs.map (·.defn.qualified)) =
      .ok ["core//x", "core//x"] := by
    cbv
  have hmodule : (generate slashedUnit fns 0).toOption.map
      (fun g => (g.module.funcs.length, g.module.functionImports)) = some (3, []) := rfl
  cases hl : Layout.ofUnit slashedUnit fns with
  | error e =>
    rw [hl] at hnames
    cases hnames
  | ok l =>
    rw [hl] at hnames
    cases hg : generate slashedUnit fns 0 with
    | error e =>
      rw [hg] at hmodule
      cases hmodule
    | ok g =>
      rw [hg] at hmodule
      obtain ⟨hfuncs, himports⟩ := Prod.mk.inj (Option.some.inj hmodule)
      exact ⟨g, l, rfl, rfl, Except.ok.inj hnames, hfuncs, himports⟩

end Codegen

end WasmLisp
