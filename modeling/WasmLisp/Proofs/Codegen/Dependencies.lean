import Mathlib
import WasmLisp.Proofs.Codegen.Linked
import WasmLisp.Proofs.Target

/-!
# Dependencies and imports

A unit declares the names that it refers to and does not define; the module generated of it imports what
its nodes need and the unit does not have for them. The first asks for names, whatever they are names
of, and the second for a function of a pair or for a data symbol.

* `CompUnit.Outside`: a node refers to what the unit does not have in that role;
* `Codegen.mem_importNames_iff`: what such nodes refer to is what is imported;
* `Codegen.generate_deps`: the declared dependencies are the imported names that the unit does not
  define, so that they are all of them unless a name is used in two roles.
-/

namespace WasmLisp

/-! ## Sorted names -/

theorem mem_sortTexts {a : String} {ss : List String} : a ∈ sortTexts ss ↔ a ∈ ss :=
  List.mem_mergeSort

theorem mem_dropRepeats {a : String} {ss : List String} : a ∈ dropRepeats ss ↔ a ∈ ss := by
  fun_induction dropRepeats ss with
  | case1 => rfl
  | case2 b => rfl
  | case3 b rest ih => rw [ih]; simp
  | case4 b c rest hbc ih => rw [List.mem_cons, ih, List.mem_cons (l := c :: rest)]

/-- Sorted names are in strict order once repetitions are gone. -/
theorem pairwise_dropRepeats {ss : List String} (h : ss.Pairwise (· ≤ ·)) :
    (dropRepeats ss).Pairwise (· < ·) := by
  fun_induction dropRepeats ss with
  | case1 => exact .nil
  | case2 b => exact List.pairwise_singleton _ b
  | case3 b rest ih => exact ih h.of_cons
  | case4 b c rest hbc ih =>
    obtain ⟨hb, hrest⟩ := List.pairwise_cons.mp h
    refine List.pairwise_cons.mpr ⟨fun x hx => ?_, ih hrest⟩
    have hbc' : b < c := lt_of_le_of_ne (hb c List.mem_cons_self) hbc
    rcases List.mem_cons.mp (mem_dropRepeats.mp hx) with rfl | hx
    · exact hbc'
    · exact hbc'.trans_le ((List.pairwise_cons.mp hrest).1 x hx)

/-! ## Names that a unit uses -/

namespace CompUnit

open Codegen (definition? dataSymbol?)

variable {u : CompUnit} {n : Node} {name : String}

/-- The names that the unit defines, of functions and of data symbols alike. -/
def definedNames (u : CompUnit) : List String := u.nodes.flatMap definedBy

/-- The data symbols that the unit defines. -/
def dataSymbols (u : CompUnit) : List String := (u.nodes.filterMap dataSymbol?).map (·.1)

/-- The unit does not have what a node refers to: a function of the pair that is called, or a data
symbol. Vars and foreign functions are never its own. -/
def Outside (u : CompUnit) : Node → Prop
  | .invoke ns name _ => (ns, name) ∉ u.defns.map Defn.key
  | .foreignGet name => name ∉ u.dataSymbols
  | .foreignSet name _ => name ∉ u.dataSymbols
  | _ => True

theorem qualify_mem_definedNames {p : String × String} (h : p ∈ u.defns.map Defn.key) :
    Symbol.qualify p.1 p.2 ∈ u.definedNames := by
  rw [Codegen.map_key_defns] at h
  obtain ⟨f, hf, rfl⟩ := List.mem_map.mp h
  obtain ⟨n, hn, hdef⟩ := List.mem_filterMap.mp hf
  refine List.mem_flatMap.mpr ⟨n, hn, ?_⟩
  cases n with
  | defn ns name params body =>
    cases hdef
    exact List.mem_singleton_self _
  | _ => cases hdef

theorem dataSymbols_subset : u.dataSymbols ⊆ u.definedNames := by
  intro name hname
  obtain ⟨g, hg, rfl⟩ := List.mem_map.mp hname
  obtain ⟨n, hn, hdef⟩ := List.mem_filterMap.mp hg
  refine List.mem_flatMap.mpr ⟨n, hn, ?_⟩
  cases n with
  | defGlobal name init =>
    cases hdef
    exact List.mem_singleton_self _
  | _ => cases hdef

/-- What a node refers to is outside if the unit defines no name of that sort. -/
theorem outside_of_notMem (hname : name ∈ referredBy n) (hdefined : name ∉ u.definedNames) :
    u.Outside n := by
  cases n with
  | invoke ns f args =>
    obtain rfl := List.mem_singleton.mp hname
    exact fun hkey => hdefined (qualify_mem_definedNames hkey)
  | foreignGet g =>
    obtain rfl := List.mem_singleton.mp hname
    exact fun hdata => hdefined (dataSymbols_subset hdata)
  | foreignSet g value =>
    obtain rfl := List.mem_singleton.mp hname
    exact fun hdata => hdefined (dataSymbols_subset hdata)
  | _ => trivial

theorem mem_deps : name ∈ u.deps ↔ (∃ n ∈ u.nodes, name ∈ referredBy n) ∧ name ∉ u.definedNames := by
  unfold deps
  dsimp only
  rw [mem_dropRepeats, mem_sortTexts, List.mem_filter, List.mem_flatMap]
  simp [definedNames]

theorem pairwise_deps (u : CompUnit) : u.deps.Pairwise (· < ·) :=
  pairwise_dropRepeats (pairwise_sortTexts _)

end CompUnit

/-- The names that a module imports, from wherever. -/
def Binary.Module.importNames (m : Binary.Module) : List String := m.imports.map (·.name)

namespace Codegen

open CompUnit (referredBy)

variable {u : CompUnit} {g : Generated} {l : Layout} {n : Node} {w : Wanted}

/-! ## Imports without a preamble -/

/-- A node refers to what it wants imported. -/
theorem referredBy_of_wantedBy? (h : wantedBy? n = some w) : referredBy n = [w.label.2.1] := by
  cases n <;> cases h <;> rfl

/-- Without a preamble nothing is linked, and the imports are what the nodes of the unit want and the
unit does not have. -/
theorem mem_imports_iff (h : Layout.ofUnit u [] = .ok l) (name : String) :
    (∃ w ∈ l.imports, w.label.2.1 = name) ↔ ∃ n ∈ u.nodes, u.Outside n ∧ name ∈ referredBy n := by
  obtain ⟨new, hb, -, hwanted⟩ := ofUnit_called h
  obtain rfl : new = [] := by
    refine List.eq_nil_iff_forall_not_mem.mpr fun r hr => ?_
    cases hb.found r hr
  have hnodes : reachedNodes u [] = u.nodes := by
    rw [reachedNodes, List.map_nil, List.append_nil]
    rfl
  have hkeys : l.keys = u.defns.map Defn.key := by
    rw [hb.keys_eq, List.map_nil, List.append_nil]
  have hglobals : l.globals.map (·.1) = u.dataSymbols := by rw [hb.globals, CompUnit.dataSymbols]
  rw [hnodes] at hwanted
  constructor
  · rintro ⟨w, hw, rfl⟩
    obtain ⟨n, hn, hwants, hlacks⟩ := hwanted w hw
    refine ⟨n, hn, ?_, by rw [referredBy_of_wantedBy? hwants]; exact List.mem_singleton_self _⟩
    cases n with
    | invoke ns f args =>
      rw [CompUnit.Outside, ← hkeys]
      exact hlacks
    | foreignGet x | foreignSet x value =>
      cases hwants
      rw [CompUnit.Outside, ← hglobals]
      exact hb.tidy.foreign _ hw
    | _ => trivial
  · rintro ⟨n, hn, hout, hname⟩
    have hplace := hb.places n (hnodes.symm ▸ hn)
    cases n with
    | invoke ns f args =>
      obtain rfl := List.mem_singleton.mp hname
      exact ⟨_, hplace.resolve_left (hkeys.symm ▸ hout), rfl⟩
    | foreignGet x | foreignSet x value =>
      obtain rfl := List.mem_singleton.mp hname
      exact ⟨_, hplace.resolve_left (hglobals.symm ▸ hout), rfl⟩
    | foreignCall f args | varRef ns x | bindVar ns x init =>
      obtain rfl := List.mem_singleton.mp hname
      exact ⟨_, hplace, rfl⟩
    | _ => cases hname

theorem mem_importNames_iff {maxDepth : Int} (h : generate u [] maxDepth = .ok g) (name : String) :
    name ∈ g.module.importNames ↔ ∃ n ∈ u.nodes, u.Outside n ∧ name ∈ referredBy n := by
  obtain ⟨p, hp, -, hmodule⟩ := generate_eq_ok h
  have hnames : g.module.importNames = p.layout.imports.map (·.label.2.1) := by
    rw [hmodule]
    have hlabels := congrArg (List.map (·.2.1)) p.map_imports_toModule
    rw [List.map_map, List.map_map] at hlabels
    exact hlabels
  rw [hnames, List.mem_map, mem_imports_iff (Program.layout_eq hp)]

/-- Generated without a preamble, a module imports the names that nodes of its unit refer to and that the
unit does not have in that role. The dependencies in its manifest, which are in strict order, are those of
them that the unit does not define at all; so they are the imports unless the unit defines a name that it
also uses for something else. -/
theorem generate_deps {maxDepth : Int} (h : generate u [] maxDepth = .ok g) :
    g.manifest.deps = u.deps ∧ u.deps.Pairwise (· < ·) ∧
      (∀ name, name ∈ g.module.importNames ↔ ∃ n ∈ u.nodes, u.Outside n ∧ name ∈ referredBy n) ∧
      (∀ name, name ∈ u.deps ↔ name ∈ g.module.importNames ∧ name ∉ u.definedNames) ∧
      ((∀ name, name ∈ u.deps ↔ name ∈ g.module.importNames) ↔
        ∀ n ∈ u.nodes, u.Outside n → ∀ name ∈ referredBy n, name ∉ u.definedNames) := by
  have himports := mem_importNames_iff h
  have hdeps : ∀ name, name ∈ u.deps ↔ name ∈ g.module.importNames ∧ name ∉ u.definedNames := by
    intro name
    rw [CompUnit.mem_deps, himports]
    constructor
    · rintro ⟨⟨n, hn, hname⟩, hdefined⟩
      exact ⟨⟨n, hn, CompUnit.outside_of_notMem hname hdefined, hname⟩, hdefined⟩
    · rintro ⟨⟨n, hn, -, hname⟩, hdefined⟩
      exact ⟨⟨n, hn, hname⟩, hdefined⟩
  refine ⟨?_, u.pairwise_deps, himports, hdeps, fun hsame n hn hout name hname => ?_,
    fun hroles name => ?_⟩
  · obtain ⟨p, -, hmanifest, -⟩ := generate_eq_ok h
    rw [hmanifest]
    rfl
  · have hin := (hsame name).mpr ((himports name).mpr ⟨n, hn, hout, hname⟩)
    exact ((hdeps name).mp hin).2
  · rw [hdeps, and_iff_left_iff_imp]
    intro hin
    obtain ⟨n, hn, hout, hname⟩ := (himports name).mp hin
    exact hroles n hn hout name hname

/-- A unit that reads a data symbol of its own, and else uses what it does not define. -/
def plainUnit : CompUnit where
  forms := [.defGlobal "mine" 0, .bindVar "user" "x" (.foreignGet "mine"),
    .invoke "core" "inc" [.foreignSet "counter" (.varRef "a" "x")]]

/-- Its dependencies are its imports. -/
theorem generate_deps_plain : ∃ g, generate plainUnit [] 0 = .ok g ∧
    g.manifest.deps = plainUnit.deps ∧ plainUnit.deps.Pairwise (· < ·) ∧
    (∀ name, name ∈ plainUnit.deps ↔ name ∈ g.module.importNames) ∧
    g.module.importNames = ["user/x", "core/inc", "counter", "a/x"] := by
  have hnames : (generate plainUnit [] 0).toOption.map (·.module.importNames) =
      some ["user/x", "core/inc", "counter", "a/x"] := rfl
  cases hg : generate plainUnit [] 0 with
  | error e =>
    rw [hg] at hnames
    cases hnames
  | ok g =>
    rw [hg] at hnames
    obtain ⟨hmanifest, hsorted, -, -, hroles⟩ := generate_deps hg
    refine ⟨g, rfl, hmanifest, hsorted, hroles.mpr fun n hn hout name hname => ?_,
      Option.some.inj hnames⟩
    have hdefined : plainUnit.definedNames = ["mine"] := by cbv
    have hdata : plainUnit.dataSymbols = ["mine"] := by cbv
    rw [hdefined, List.mem_singleton]
    simp only [plainUnit, CompUnit.nodes, Node.flattenAll, Node.flatten, List.mem_append,
      List.mem_cons, List.not_mem_nil, or_false] at hn
    rcases hn with rfl | (rfl | rfl) | rfl | rfl | rfl
    · cases hname
    · rw [List.mem_singleton.mp hname]
      decide
    · exact absurd (hdata ▸ List.mem_singleton_self "mine") hout
    · rw [List.mem_singleton.mp hname]
      decide
    · rw [List.mem_singleton.mp hname]
      decide
    · rw [List.mem_singleton.mp hname]
      decide

/-- A unit that defines a data symbol and calls a foreign function of the same name. -/
def gcdUnit : CompUnit where
  ns := "user"
  forms := [.defGlobal "gcd" 1, .foreignCall "gcd" [.const 4, .const 6]]

/-- Its source, as it is read. -/
def gcdForms : List Form :=
  [.list [.sym { name := "defglobal" } 1, .sym { name := "gcd" } 1, .int 1 1] 1,
    .list [.sym { ns := "native", name := "gcd" } 1, .int 4 1, .int 6 1] 1]

/-- Such a unit imports the function and declares no dependency. -/
theorem deps_miss_import :
    gcdForms.map (fun f => (f.analyze .initial "user").2.toOption) = gcdUnit.forms.map some ∧
    ∃ g, generate gcdUnit [] 0 = .ok g ∧ g.module.importNames = ["gcd"] ∧ g.manifest.deps = [] := by
  refine ⟨by cbv, ?_⟩
  have hboth : (generate gcdUnit [] 0).toOption.map
      (fun g => (g.module.importNames, g.manifest.deps)) = some (["gcd"], []) := by
    decide +kernel
  cases hg : generate gcdUnit [] 0 with
  | error e =>
    rw [hg] at hboth
    cases hboth
  | ok g =>
    rw [hg] at hboth
    obtain ⟨hnames, hdeps⟩ := Prod.mk.inj (Option.some.inj hboth)
    exact ⟨g, rfl, hnames, hdeps⟩

end Codegen

end WasmLisp
