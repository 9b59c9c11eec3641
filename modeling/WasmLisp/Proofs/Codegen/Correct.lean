import Mathlib
import WasmLisp.Proofs.Codegen.Simulation

/-!
# Generated code means what its unit means

* `entry_follows`: the entry of an instance runs as the forms of the unit are evaluated;
* `generate_correct`: the entry of a generated module ends, with a value or in a trap, exactly if
  evaluation of the unit does, and does the same outside on the way.
-/

namespace WasmLisp.Codegen

open Machine (Instr Store Extern HostCall Trap Config Scene Outcome)
open Binary (i64 FuncType)

variable {η σ : Type} {p : Program} {u : CompUnit} {fns : List Defn} {depth : Nat}
  {new : List Reached} {s s' : Store η} {inst : Machine.Instance} {host : HostCall η σ}

/-! ## Primitives of analysed code -/

theorem primFits_of_sound {ns : String} {Q : Symbol → Prop} {n : Node}
    (h : Analysis.Sound ns Q n) : PrimFits n := by
  cases n with
  | prim op args => exact h
  | _ => trivial

/-- The functions of a preamble that is there, or none. -/
theorem functions_sound {preamble : Preamble} {d : Defn} (h : d ∈ preamble.functions) :
    Analysis.AllSound Env.coreNs (fun _ => True) d.node := by
  unfold Preamble.functions at h
  split at h
  · rename_i fns hload
    exact Preamble.load_sound hload (fun _ _ f _ => f.allSymbols_true) d h
  · exact absurd h List.not_mem_nil

/-- All primitives that code is generated of have operands as they need them. -/
theorem primFits_reached {preamble : Preamble} (h : p.Built u preamble.functions depth new)
    (hforms : ∀ n ∈ u.forms, ∃ (f : Form) (env : Env) (ns : String), (f.analyze env ns).2 = .ok n) :
    ∀ n ∈ reachedNodes u new, PrimFits n := by
  intro n hn
  rw [reachedNodes, Node.mem_flattenAll] at hn
  obtain ⟨root, hroot, hn⟩ := hn
  rcases List.mem_append.1 hroot with hroot | hroot
  · obtain ⟨f, env, ns, hf⟩ := hforms root hroot
    exact primFits_of_sound (analyze_sound hf f.allSymbols_true n hn)
  · obtain ⟨r, hr, rfl⟩ := List.mem_map.1 hroot
    have hin : r.2 ∈ preamble.functions := List.mem_of_find?_eq_some (h.layout.found r hr)
    exact primFits_of_sound (functions_sound hin n hn)

/-! ## The entry -/

/-- The moment at which the entry of an instance begins. -/
def Program.begin (p : Program) (s s' : Store η) (world : σ) : Config η σ :=
  { store := s', world
    frame := .start (s.funcs.size + p.functions.length) s.instances.size 1 p.entry.locals
      p.entry.body []
    limit := none }

/-- How a run ends that follows an evaluation. -/
def Meets (host : HostCall η σ) (shows : Config η σ → List Event) (fuel : Nat) (c : Config η σ) :
    Option (List Event × (Store η × σ) × Except Trap Int64) → Prop
  | none => ∃ k tr d, fuel ≤ k ∧ Config.Steps host shows k c tr d
  | some (events, s, .error t) => ∃ active, Config.Ends host shows c events (.trap t active s.1 s.2)
  | some (events, s, .ok v) => Config.Ends host shows c events (.done [v] s.1 s.2)

/-- The entry of an instance runs as the forms of the unit are evaluated. -/
theorem entry_follows (hv : Live p u fns depth new s s' inst) (world : σ) (fuel : Nat) :
    Meets host (p.machine.observe s.funcs.size) fuel (p.begin s s' world)
      (Meaning.ofUnit (outside host s u) u fns fuel (s', world)) := by
  obtain ⟨hcode, -⟩ := entryCode_eq_ok hv.built.entry
  have hc : Within s (p.begin s s' world) := by
    refine ⟨rfl, fun a ha => ?_, rfl⟩
    have : a = s.funcs.size + p.functions.length := by simpa [Config.active, Program.begin,
      Machine.Frame.start] using ha
    omega
  have hforms : Node.flattenAll u.forms ⊆ reachedNodes u new := by
    intro n hn
    obtain ⟨f, hf, hn⟩ := Node.mem_flattenAll.1 hn
    exact Layout.Built.form_subset hf hn
  have hruns : (scene host p s s' fuel).Runs (p.begin s s' world)
      (List.replicate p.entry.locals 0) p.entry.body []
      (Meaning.ofUnit (outside host s u) u fns fuel)
      (Leaves 0 (List.replicate p.entry.locals 0) []) :=
    sequence_runs hv (calls_run hv fuel) hcode hc hforms
      (fun q hq => absurd hq List.not_mem_nil) .nil (by simp)
  have hfollows := hruns (s', world) [] (.refl _)
  have hbegin : (p.begin s s' world).point (s', world) (List.replicate p.entry.locals 0)
      (p.entry.body ++ []) [] = p.begin s s' world := by
    rw [List.append_nil]
    rfl
  rw [hbegin] at hfollows
  generalize Meaning.ofUnit (outside host s u) u fns fuel (s', world) = r at hfollows ⊢
  rcases r with _ | ⟨events, state, t | v⟩
  · exact hfollows
  · exact hfollows
  · obtain ⟨k, d, hsteps, hst, hw, _, locals', stack', hleaves, hd⟩ := hfollows
    -- the value is all that the entry leaves, and then it ends
    have hstep : d.step host = .stop (.done [v] state.1 state.2) := by
      rw [hd, hst, hw, hleaves.2]
      rfl
    have hshow : p.machine.observe s.funcs.size d = [] := by
      rw [hd]
      rfl
    have hend : Config.Ends host (p.machine.observe s.funcs.size) (p.begin s s' world)
        (events ++ p.machine.observe s.funcs.size d) _ := hsteps.ends (.stop hstep)
    rw [hshow, List.append_nil] at hend
    exact hend

/-! ## Generated modules -/

/-- What a call of a function shows, with no limit on the functions that can be active at once. -/
def traceWithin (host : HostCall η σ) (shows : Config η σ → List Event) (fuel : Nat) (s : Store η)
    (world : σ) (address : Nat) (args : List Int64) : List Event :=
  match s.funcs[address]? with
  | some (.code inst _ t locals body) =>
    Config.trace host shows fuel
      { store := s, world, frame := .start address inst t.results.length locals body args
        limit := none }
  | _ => []

/-- Whether a run ends with an outcome for some fuel is whether it ends. -/
theorem ends_iff_meets {shows : Config η σ → List Event} {c : Config η σ}
    {x : Nat → Option (List Event × (Store η × σ) × Except Trap Int64)}
    (h : ∀ fuel, Meets host shows fuel c (x fuel)) (events : List Event) (final : Store η × σ) :
    (∀ values, Config.Ends host shows c events (.done values final.1 final.2) ↔
      ∃ fuel v, values = [v] ∧ x fuel = some (events, final, .ok v)) ∧
    ∀ t, (∃ active, Config.Ends host shows c events (.trap t active final.1 final.2)) ↔
      ∃ fuel, x fuel = some (events, final, .error t) := by
  refine ⟨fun values => ⟨fun hend => ?_, ?_⟩, fun t => ⟨?_, ?_⟩⟩
  · obtain ⟨fuel, hrun, -⟩ := hend.exists_fuel
    have hm := h fuel
    match hx : x fuel with
    | none =>
      rw [hx] at hm
      obtain ⟨k, tr, d, hk, hs⟩ := hm
      have := hs.lt_fuel hrun trivial
      omega
    | some (events', state, .error t) =>
      rw [hx] at hm
      obtain ⟨active, hm⟩ := hm
      cases (hend.unique hm).2
    | some (events', state, .ok v) =>
      rw [hx] at hm
      obtain ⟨rfl, heq⟩ := hend.unique hm
      obtain ⟨hvalues, hst, hw⟩ := Outcome.done.inj heq
      obtain rfl : final = state := Prod.ext hst hw
      exact ⟨fuel, v, hvalues, hx⟩
  · rintro ⟨fuel, v, rfl, hx⟩
    have hm := h fuel
    rw [hx] at hm
    exact hm
  · rintro ⟨active, hend⟩
    obtain ⟨fuel, hrun, -⟩ := hend.exists_fuel
    have hm := h fuel
    match hx : x fuel with
    | none =>
      rw [hx] at hm
      obtain ⟨k, tr, d, hk, hs⟩ := hm
      have := hs.lt_fuel hrun trivial
      omega
    | some (events', state, .error t') =>
      rw [hx] at hm
      obtain ⟨active', hm⟩ := hm
      obtain ⟨rfl, heq⟩ := hend.unique hm
      obtain ⟨rfl, -, hst, hw⟩ := Outcome.trap.inj heq
      obtain rfl : final = state := Prod.ext hst hw
      exact ⟨fuel, hx⟩
    | some (events', state, .ok v) =>
      rw [hx] at hm
      cases (hend.unique hm).2
  · rintro ⟨fuel, hx⟩
    have hm := h fuel
    rw [hx] at hm
    exact hm

/-- Generated code means what its unit means. The forms come from analysis, generation succeeds
with any preamble and limit, and the module is no larger than the sizes of the binary format can
say. Then its binary can be decoded, and whatever store the module is linked to, with whatever
behaviour of the functions outside: its entry gives a value exactly if evaluation of the unit gives
it, and traps exactly if evaluation fails for the same reason, with the same state left and the
same calls, reads and bindings of vars and writes of data symbols on the way. -/
theorem generate_correct {u : CompUnit} {preamble : Preamble} {maxDepth : Int} {g : Generated}
    (hforms : ∀ n ∈ u.forms, ∃ (f : Form) (env : Env) (ns : String), (f.analyze env ns).2 = .ok n)
    (hgen : generate u preamble.functions maxDepth = .ok g)
    (hsize : g.module.encode.length < 0x100000000) :
    ∃ m, Machine.Module.decode? g.module.encode = some m ∧
      ∀ {η σ : Type} (host : HostCall η σ) (s s' : Store η) (name : String) (world : σ),
        s.instantiate? m name = some s' →
        ∃ inst entry, s'.instances[s.instances.size]? = some inst ∧
          (g.manifest.entry, Extern.func entry) ∈ inst.exports ∧
          (∀ name init, .defGlobal name init ∈ u.nodes →
            (outside host s u).get name (s', world) = init) ∧
          ∀ events final,
            (∀ values,
              (∃ fuel, Machine.invokeWithin host none fuel s' world entry [] =
                  .done values final.1 final.2 ∧
                traceWithin host (m.observe s.funcs.size) fuel s' world entry [] = events) ↔
              ∃ fuel v, values = [v] ∧
                Meaning.ofUnit (outside host s u) u preamble.functions fuel (s', world) =
                  some (events, final, .ok v)) ∧
            ∀ t,
              (∃ fuel active, Machine.invokeWithin host none fuel s' world entry [] =
                  .trap t active final.1 final.2 ∧
                traceWithin host (m.observe s.funcs.size) fuel s' world entry [] = events) ↔
              ∃ fuel, Meaning.ofUnit (outside host s u) u preamble.functions fuel (s', world) =
                some (events, final, .error t) := by
  obtain ⟨p, hp, hman, hmod⟩ := generate_eq_ok hgen
  obtain ⟨new, hb⟩ := Program.ofUnit_built hp
  have hsmall : p.toModule.encode.length < 0x100000000 := by
    have := p.length_encode_le g.manifest
    rw [← hmod] at this
    omega
  refine ⟨p.machine, ?_, ?_⟩
  · rw [hmod] at hsize ⊢
    exact hb.decode?_encode g.manifest hsize
  intro η σ host s s' name world hinst
  obtain ⟨inst, hh⟩ := hosted_of_instantiate? hb hsmall hinst
  have hv : Live p u preamble.functions (effectiveDepth maxDepth) new s s' inst :=
    ⟨hb, hh, hsmall, primFits_reached hb hforms⟩
  have hlast : p.codes[p.functions.length]? = some p.entry := by simp [Program.codes]
  obtain ⟨-, k, hcallee⟩ := hh.funcs _ _ hlast
  refine ⟨inst, s.funcs.size + p.functions.length, hh.added, ?_, hh.first, ?_⟩
  · have hentry := hh.entry
    rw [hb.name] at hentry
    rw [hman]
    exact hentry
  intro events final
  have hinvoke : ∀ fuel, Machine.invokeWithin host none fuel s' world
      (s.funcs.size + p.functions.length) [] = (p.begin s s' world).run host fuel := by
    intro fuel
    simp only [Machine.invokeWithin, hcallee]
    rfl
  have htrace : ∀ fuel, traceWithin host (p.machine.observe s.funcs.size) fuel s' world
      (s.funcs.size + p.functions.length) [] =
        (p.begin s s' world).trace host (p.machine.observe s.funcs.size) fuel := by
    intro fuel
    simp only [traceWithin, hcallee]
    rfl
  have hmeets : ∀ fuel, Meets host (p.machine.observe s.funcs.size) fuel (p.begin s s' world)
      (Meaning.ofUnit (outside host s u) u preamble.functions fuel (s', world)) :=
    entry_follows hv world
  obtain ⟨hdone, htrap⟩ := ends_iff_meets hmeets events final
  simp only [hinvoke, htrace]
  refine ⟨fun values => ?_, fun t => ?_⟩
  · rw [← hdone values]
    exact Config.exists_fuel_iff_ends trivial
  · rw [← htrap t, exists_comm]
    exact exists_congr fun active => Config.exists_fuel_iff_ends trivial

/-- A unit that calls a function outside, which keeps what it is called with. -/
def printUnit : CompUnit :=
  { forms := [.foreignCall "print" [.prim "+" [.const 41, .const 1]]] }

def printStore : Store Unit :=
  ({} : Store Unit).addHost "env" [("print", (), .ofCounts 1 1)]

def printHost : HostCall Unit (List Int64) := fun _ args world =>
  (world ++ args, .ok [args.headD 0])

theorem generate_correct_print :
    ∃ g m s' entry fuel, generate printUnit (Preamble.functions ⟨""⟩) 0 = .ok g ∧
      Machine.Module.decode? g.module.encode = some m ∧
      printStore.instantiate? m "print" = some s' ∧
      Machine.invokeWithin printHost none fuel s' [] entry [] = .done [42] s' [42] ∧
      traceWithin printHost (m.observe printStore.funcs.size) fuel s' [] entry [] =
        [.call "print" [42]] := by
  have hfns : Preamble.functions ⟨""⟩ = [] := by cbv
  have hforms : ∀ n ∈ printUnit.forms, ∃ (f : Form) (env : Env) (ns : String),
      (f.analyze env ns).2 = .ok n := by
    refine List.forall_mem_singleton.2 ⟨.list [.sym { ns := "native", name := "print" } 1,
      .list [.sym { name := "+" } 1, .int 41 1, .int 1 1] 1] 1, .initial, "user", by cbv⟩
  have hsize : (generate printUnit [] 0).toOption.all
      (fun g => g.module.encode.length < 0x100000000) = true := by cbv
  have hlinks : ((Program.ofUnit printUnit [] defaultMaxDepth).toOption.bind fun p =>
      printStore.instantiate? p.machine "print").isSome = true := by decide +kernel
  cases hgen : generate printUnit [] 0 with
  | error e =>
    have hok : (generate printUnit [] 0).isOk = true := rfl
    rw [hgen] at hok
    cases hok
  | ok g =>
    rw [hgen] at hsize
    have hlt : g.module.encode.length < 0x100000000 := by simpa [Except.toOption] using hsize
    obtain ⟨m, hdec, hall⟩ := generate_correct hforms (hfns ▸ hgen) hlt
    obtain ⟨p, hp, -, hmod⟩ := generate_eq_ok hgen
    obtain ⟨new, hb⟩ := Program.ofUnit_built hp
    have hm : m = p.machine := by
      have hdec' := hb.decode?_encode g.manifest (hmod ▸ hlt)
      rw [← hmod, hdec] at hdec'
      exact Option.some.inj hdec'
    subst hm
    have hp' : Program.ofUnit printUnit [] defaultMaxDepth = .ok p := hp
    rw [hp'] at hlinks
    obtain ⟨s', hs'⟩ := Option.isSome_iff_exists.1 hlinks
    obtain ⟨linked, inst, ha⟩ := Store.added_of_instantiate? hs'
    have hprint : s'.funcs[0]? = some (.host () "env.print" (.ofCounts 1 1)) := by
      rw [ha.funcs, Array.getElem?_append_left (by decide)]
      rfl
    have hmean : Meaning.ofUnit (outside printHost printStore printUnit) printUnit [] 0 (s', []) =
        some ([.call "print" [42]], (s', [42]), .ok 42) := by
      have hexport : printStore.export? "env" "print" = some (.func 0) := by decide +kernel
      have hcall : (outside printHost printStore printUnit).call 0 "print" [42] (s', []) =
          some ((s', [42]), .ok 42) := by
        simp only [outside, foreign, Artifact.envModule, hexport, Machine.invokeWithin, hprint]
        rfl
      simp only [Meaning.ofUnit, printUnit, Meaning.sequence, Meaning.value, Meaning.values,
        pure_bind]
      show (((outside printHost printStore printUnit).call 0 "print" [42] (s', [])).map
        fun r => ([Event.call "print" [42]], r)).map (fun r => ([] ++ r.1, r.2)) = _
      rw [hcall]
      rfl
    obtain ⟨inst, entry, -, -, -, hiff⟩ := hall printHost printStore s' "print" [] hs'
    obtain ⟨fuel, hrun, htrace⟩ := ((hiff _ (s', [42])).1 [42]).2 ⟨0, 42, rfl, hfns ▸ hmean⟩
    exact ⟨g, p.machine, s', entry, fuel, hfns ▸ hgen, hdec, hs', hrun, htrace⟩

end WasmLisp.Codegen
