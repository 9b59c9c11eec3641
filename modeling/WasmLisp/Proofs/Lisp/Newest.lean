import Mathlib
import WasmLisp.Proofs.Engine.Newest
import WasmLisp.Proofs.Lisp.Aligned

/-!
# The newest definition of a program

An evaluator evaluates sources one after the other, all with success. Whatever function a source calls and
does not define, the call leads to the last definition before it, and later sources do not change that; but a
call of a name that the preamble has leads to the preamble function, whether the name was defined anew or not.

* `Lisp.Fresh`: a Lisp that nothing was evaluated in, as `Lisp.new` makes it (`Lisp.fresh_new`);
* `Evaluator.Chained`: the modules of the evaluated sources are loaded one after the other;
* `Evaluator.newest_definition_called`: where the calls in evaluated sources lead to.
-/

namespace WasmLisp

/-- Nothing was loaded into the engine yet, and its symbols came about by registration. All backends have
the preamble, and the cache has nothing wrong in it. -/
structure Lisp.Fresh (inputs : Set (List UInt8)) (s : Lisp) : Prop where
  engine : ∃ registry catalog around, s.engine = { registry, catalog, around } ∧ registry.Proper
  made : ∀ key b, s.compiler.backends.get? key = some b → b.Made ∧ b.preamble = s.preamble
  honest : s.compiler.Honest inputs

theorem Lisp.fresh_new {inputs : Set (List UInt8)} {config : Config} {files : FileTree} {now : Instant}
    {s : Lisp} (h : Lisp.new config files now = .ok s) (hfiles : files.AllFiles (Cache.Stored inputs)) :
    s.Fresh inputs := by
  obtain ⟨registry, cache, around, hcache, hmade, hkept, hregistry, hengine⟩ := Lisp.new_eq_ok h
  refine ⟨⟨registry, _, around, hengine, hregistry⟩, hmade, ?_⟩
  rintro _ hsome
  obtain rfl := Option.some.inj (hkept.symm.trans hsome)
  exact Cache.openIn_allFiles hfiles hcache

namespace Evaluator

open Codegen (callsOf shared?)

variable {inputs : Set (List UInt8)} {ms : List LoadedUnit} {v v' : Evaluator} {s s' : Lisp} {src : String}

/-- The engine has loaded the units, and no module of a later evaluation. -/
structure Chained (inputs : Set (List UInt8)) (ms : List LoadedUnit) (v : Evaluator) (s : Lisp) : Prop where
  chain : s.engine.Chain s.preamble.functions ms
  named : s.engine.Named
  made : ∀ key b, s.compiler.backends.get? key = some b → b.Made ∧ b.preamble = s.preamble
  honest : s.compiler.Honest inputs
  known : ∀ name, s.engine.modules.get? name ≠ none → ∃ n ≤ v.evals, name = moduleName modulePrefix n

theorem chained_new (v : Evaluator) (hs : s.Fresh inputs) : Chained inputs [] v s := by
  obtain ⟨registry, catalog, around, hengine, hregistry⟩ := hs.engine
  refine ⟨?_, ?_, hs.made, hs.honest, ?_⟩
  · rw [hengine]
    exact ⟨hregistry, nofun, nofun, fun _ => rfl, nofun⟩
  · rw [hengine]
    intro i inst hi
    simp at hi
  · rw [hengine]
    exact fun name h => absurd rfl h

/-- An evaluation loads one more unit. -/
theorem Chained.eval {value : Int64} (h : Chained inputs ms v s) (hinputs : Digest.Apart inputs)
    (hfits : (Call.eval src).Fits inputs v s) (hrun : v.eval s src = (v', s', .ok value)) :
    ∃ u m, (Call.eval src).handed v s = [u] ∧ (∃ target, m.unit = { u with target }) ∧
      s'.preamble = s.preamble ∧ Chained inputs (ms ++ [m]) v' s' := by
  obtain ⟨session, compiler, m, engine, ns, entry, hcompile, hload, rfl, rfl, rfl⟩ := eval_eq_ok hrun
  have hsmall := hfits.small
  unfold Call.loads Call.request Session.handle at hsmall
  simp only [hcompile, loadsOf, List.forall_mem_cons] at hsmall
  obtain ⟨forms, frame, u, art, hread, hextend, hbuilt, rfl, rfl⟩ := Session.compile_eq_ok hcompile
  have hunits : (Call.eval src).handed v s = [u] := by
    unfold Call.handed Session.handed Call.request
    simp only [hread, hextend, Except.toOption, Option.toList_some]
  have hhanded := hfits.hashed u (by rw [hunits]; exact List.mem_singleton_self u)
  obtain ⟨es, nodes, hu, -⟩ := Session.extend_directory hextend
  have hname : u.name = moduleName modulePrefix (v.evals + 1) := by rw [hu]
  have hproper : s.compiler.Proper := fun key b hb => (h.made key b hb).1
  obtain ⟨b, fns, g, hbackend, hfns, hart, -⟩ :=
    Compiler.compile_made hinputs h.honest hproper hhanded (by rw [hbuilt]) hsmall.1.1
  have hfunctions : fns = s.preamble.functions := by
    rw [(h.made _ b hbackend).2] at hfns
    rw [Preamble.functions, hfns]
  subst hfunctions
  have hnew : s.engine.modules.get? u.name = none := by
    by_contra hknown
    obtain ⟨n, hn, heq⟩ := h.known _ hknown
    have := moduleName_inj (hname.symm.trans heq)
    omega
  rw [← hname] at hload hsmall
  have hnamed := h.named.load v.ns art u.name
  have hknown : ∀ name, engine.modules.get? name ≠ none →
      name = u.name ∨ s.engine.modules.get? name ≠ none := fun name h =>
    Engine.get?_modules_of_load _ _ _ _ (by rw [hload]; exact h)
  rw [hload] at hnamed
  obtain ⟨m, hm, hchain⟩ := h.chain.load h.named hart hnew hsmall.1.2 hload
  have hbackends := Compiler.compile_backends s.compiler u
  have hhonest := (Compiler.compile_honest hinputs h.honest hproper hhanded).1
  rw [hbuilt] at hbackends hhonest
  refine ⟨u, m, hunits, ⟨b.target, hm⟩, rfl, hchain, hnamed, fun key b hb => h.made key b (hbackends ▸ hb),
    hhonest, fun name hmem => ?_⟩
  obtain rfl | hold := hknown name hmem
  · exact ⟨v.evals + 1, le_rfl, hname⟩
  · obtain ⟨n, hn, heq⟩ := h.known name hold
    exact ⟨n, hn.trans (Nat.le_succ _), heq⟩

/-- Evaluations one after the other load their units one after the other. -/
theorem Chained.runAll {sources : List String} (h : Chained inputs ms v s) (hinputs : Digest.Apart inputs)
    (hfits : Along (fun v s c => c.Fits inputs v s) v s (sources.map .eval))
    (hrun : runAll v s (sources.map .eval) = some (v', s')) :
    ∃ more, List.Forall₂ (fun u (m : LoadedUnit) => ∃ target, m.unit = { u with target })
        (handedAll v s (sources.map .eval)) more ∧
      s'.preamble = s.preamble ∧ Chained inputs (ms ++ more) v' s' := by
  induction sources generalizing ms v s with
  | nil =>
    cases hrun
    exact ⟨[], .nil, rfl, (List.append_nil ms).symm ▸ h⟩
  | cons src sources ih =>
    obtain ⟨v₁, s₁, hfirst, hrest⟩ := runAll_cons hrun
    obtain ⟨value, heval⟩ : ∃ value, v.eval s src = (v₁, s₁, .ok value) := by
      rcases heval : v.eval s src with ⟨v₂, s₂, failure | value⟩
      · simp only [Call.run, heval] at hfirst
        cases hfirst
      · simp only [Call.run, heval] at hfirst
        cases hfirst
        exact ⟨value, rfl⟩
    have hfits₁ := hfits.2
    rw [hfirst] at hfits₁
    obtain ⟨u, m, hhanded, hm, hpreamble, hchained⟩ := h.eval hinputs hfits.1 heval
    obtain ⟨more, hmore, hpreamble', hall⟩ := ih hchained hfits₁ hrest
    refine ⟨m :: more, ?_, hpreamble'.trans hpreamble, ?_⟩
    · rw [List.map_cons, handedAll, hfirst, hhanded]
      exact .cons hm hmore
    · rwa [List.append_assoc, List.singleton_append] at hall

/-- A call leads to the newest definition before it, unless the preamble has the name. Take sources that are
evaluated one after the other in a Lisp that is fresh, all with success. In the engine afterwards are the
units that they were compiled to, in this order, and:

* from outside, a name leads to the module of the last unit that defines it;
* a call in a unit of a function that the unit does not define leads to the unit's own copy of the preamble
  function of the name, whatever definitions of the name were evaluated before or after;
* if the preamble has no function of the name, then a unit before it defines the name, and the call leads to
  the function of the last that does, whatever was evaluated after. -/
theorem newest_definition_called {sources : List String} (hs : s.Fresh inputs)
    (hinputs : Digest.Apart inputs)
    (hfits : Along (fun v s c => c.Fits inputs v s) v s (sources.map .eval))
    (hrun : runAll v s (sources.map .eval) = some (v', s')) :
    ∃ ms, List.Forall₂ (fun u (m : LoadedUnit) => ∃ target, m.unit = { u with target })
        (handedAll v s (sources.map .eval)) ms ∧
      (∀ m ∈ ms, m.In s.preamble.functions s'.engine.store) ∧
      (∀ x, (s'.engine.funcs.get? x).map (·.module) = (newest? ms x).map (·.unit.name)) ∧
      ∀ (i : Nat) (m : LoadedUnit), ms[i]? = some m →
        m.Bound s.preamble.functions (ms.take i) s'.engine.store := by
  obtain ⟨ms, hunits, hpreamble, hchained⟩ := (chained_new v hs).runAll hinputs hfits hrun
  have hchain := hchained.chain
  rw [hpreamble, List.nil_append] at hchain
  exact ⟨ms, hunits, hchain.present, hchain.funcs, hchain.bound⟩

/-! ## A definition is evaluated again -/

/-- A function is defined, called by another one, and defined again. -/
def redefining : List String := ["(defn f [] 1)", "(defn g [] (f))", "(defn f [] 2)"]

/-- The units that this is compiled to. -/
def redefiningUnits : List CompUnit := handedAll smallEvaluator smallLisp (redefining.map .eval)

/-- What is hashed for them. -/
def redefiningInputs : List (List UInt8) :=
  (redefiningUnits.flatMap fun u =>
    [u.outline.encode, (u.hash ++ "\x00" ++ (Backend.host smallPreamble 4096).fingerprint).toUTF8.toList,
      smallPreamble.source.toUTF8.toList]).dedup

/-- All of it succeeds, and the units define and call what they should. -/
theorem redefining_runs :
    (runAll smallEvaluator smallLisp (redefining.map .eval)).isSome = true ∧
      Along (fun v s c => ∀ l ∈ c.loads v s, l.1.TakesSmall l.2) smallEvaluator smallLisp
        (redefining.map .eval) ∧
      (redefiningInputs.map Digest.sum64).Nodup ∧
      (∀ u ∈ redefiningUnits, u.target = .host) ∧
      redefiningUnits.map (fun u => (u.defns.map Defn.key, callsOf u.nodes)) =
        [([("user", "f")], []), ([("user", "g")], [("user", "f")]), ([("user", "f")], [])] ∧
      (shared? smallLisp.preamble.functions ("user", "f")).isNone = true := by
  decide +kernel

theorem fresh_smallLisp (inputs : Set (List UInt8)) : smallLisp.Fresh inputs where
  engine := ⟨{}, _, {}, rfl, Registry.proper_empty⟩
  made key b hb := by
    rw [show smallLisp.compiler = ({} : Compiler).addBackend (.host smallPreamble 4096) from rfl,
      Compiler.addBackend, Table.get?_insert] at hb
    split at hb
    · cases hb
      exact ⟨.inl ⟨smallPreamble, 4096, rfl⟩, rfl⟩
    · cases hb
  honest := by rintro _ ⟨⟩

/-- The first definition is called by what was evaluated before the second. -/
theorem newest_definition_called_redefined :
    ∃ (v' : Evaluator) (s' : Lisp) (m₁ m₂ m₃ : LoadedUnit) (a : Nat) (d : Defn),
      runAll smallEvaluator smallLisp (redefining.map .eval) = some (v', s') ∧
      (s'.engine.funcs.get? "user/f").map (·.module) = some m₃.unit.name ∧
      d ∈ m₁.unit.defns ∧ d.qualified = "user/f" ∧
      m₂.callee? ("user", "f") = some a ∧ m₁.Holds s'.engine.store d a := by
  obtain ⟨hruns, hsmall, hnodup, htargets, hunits, hshared⟩ := redefining_runs
  obtain ⟨⟨v', s'⟩, hrun⟩ := Option.isSome_iff_exists.mp hruns
  have hhashed : ∀ u ∈ redefiningUnits, smallLisp.compiler.hashed u ⊆ {xs | xs ∈ redefiningInputs} :=
    fun u hu xs hxs =>
      List.mem_dedup.mpr (List.mem_flatMap.mpr ⟨u, hu, hashed_smallLisp (htargets u hu) hxs⟩)
  obtain ⟨ms, hms, -, hfuncs, hbound⟩ := newest_definition_called (fresh_smallLisp _)
    (Digest.apart_of_nodup hnodup) (fits_along hhashed hsmall) hrun
  have hshape : ms.map (fun m => (m.unit.defns.map Defn.key, callsOf m.unit.nodes)) =
      redefiningUnits.map fun u => (u.defns.map Defn.key, callsOf u.nodes) := by
    refine (map_eq_of_forall₂ hms fun u m h => ?_).symm
    obtain ⟨target, hm⟩ := h
    rw [hm]
    rfl
  rw [hunits] at hshape
  obtain ⟨m₁, m₂, m₃, rfl⟩ : ∃ m₁ m₂ m₃, ms = [m₁, m₂, m₃] := by
    match ms, congrArg List.length hshape with
    | [m₁, m₂, m₃], _ => exact ⟨m₁, m₂, m₃, rfl⟩
  simp only [List.map_cons, List.map_nil, List.cons.injEq, Prod.mk.injEq, and_true] at hshape
  obtain ⟨-, ⟨hkeys, hcalls⟩, hkeys₃, -⟩ := hshape
  have hborrows : m₂.Borrows ("user", "f") := by
    rw [LoadedUnit.Borrows, hkeys, hcalls]
    decide
  obtain ⟨owner, a, howner, hcallee, d, hd, hname, hholds⟩ :=
    (hbound 1 m₂ rfl).newest _ hborrows (Option.isNone_iff_eq_none.mp hshared)
  obtain rfl : owner = m₁ := List.mem_singleton.mp (mem_of_newest? howner).1
  have hlast : newest? [owner, m₂, m₃] "user/f" = some m₃ := by
    have hdefines : m₃.defines = [Symbol.qualify "user" "f"] := by
      rw [LoadedUnit.defines, show Defn.qualified = (fun q => Symbol.qualify q.1 q.2) ∘ Defn.key from rfl,
        ← List.map_map, hkeys₃]
      rfl
    rw [show [owner, m₂, m₃] = [owner, m₂] ++ [m₃] from rfl, newest?_append, hdefines, if_pos (by decide)]
  refine ⟨v', s', owner, m₂, m₃, a, d, hrun, ?_, hd, hname, hcallee, hholds⟩
  rw [hfuncs, hlast]
  rfl

/-- A function of the preamble is defined anew. From outside the new definition is called, and a source that
is evaluated afterwards calls the old one. -/
theorem preamble_called_although_redefined :
    ∃ v s, runAll smallEvaluator smallLisp [.eval "(in-ns 'core) (defn one [] 100)"] = some (v, s) ∧
      (s.engine.call "core/one" []).2 = .ok 100 ∧ (v.eval s "(one)").2.2 = .ok 1 := by
  have hcalled : (runAll smallEvaluator smallLisp [.eval "(in-ns 'core) (defn one [] 100)"]).map
      (fun x => ((x.2.engine.call "core/one" []).2.toOption, (x.1.eval x.2 "(one)").2.2.toOption)) =
        some (some 100, some 1) := by
    decide +kernel
  obtain ⟨⟨v, s⟩, hrun, hanswers⟩ := Option.map_eq_some_iff.mp hcalled
  obtain ⟨houtside, hinside⟩ := Prod.mk.inj hanswers
  exact ⟨v, s, hrun, Except.eq_ok_of_toOption houtside, Except.eq_ok_of_toOption hinside⟩

end Evaluator

end WasmLisp
