import Mathlib
import WasmLisp.Proofs.Session

/-!
# Sessions say what went wrong

No request to a session fails without a phase and a kind (`Session.reports_compile`,
`Session.reports_require`): the reader, the analysis, environment forms, code generation and the
compiler all report. So a failure can be sent as what it reports.
-/

namespace WasmLisp

open Result

/-! ## Code generation -/

namespace Codegen

/-- A primitive that does not exist, or does not take as many operands, is reported. -/
theorem reports_primShape (name : String) (count : Nat) : Reports (PrimShape.of name count) := by
  unfold PrimShape.of
  repeat' split
  all_goals first
    | exact .ok _
    | exact Reports.error.mpr rfl

variable (c : Context)

mutual

/-- Whatever a node is nested in, code generation reports what is wrong with it: it is too deep, a local
is not bound, or a call has the wrong number of arguments. -/
theorem reports_expr : ∀ (n : Node) (depth : Nat) (slots : Slots) (next : Nat),
    Reports (expr c depth slots next n)
  | n, depth, slots, next => by
    rw [expr.eq_def]
    split
    · exact Reports.error.mpr rfl
    · cases n with
      | absent | const | varRef | defn | defGlobal | foreignGet => exact .ok _
      | localVar name =>
        dsimp only
        split
        · exact .ok _
        · exact Reports.error.mpr rfl
      | bindVar ns name init => exact (reports_expr init _ _ _).bind fun _ => .ok _
      | invoke ns name args =>
        refine (reports_exprs args _ _ _).bind fun _ => ?_
        dsimp only
        split
        · split
          · exact Reports.error.mpr rfl
          · exact .ok _
        · exact .ok _
      | foreignCall name args => exact (reports_exprs args _ _ _).bind fun _ => .ok _
      | foreignSet name value => exact (reports_expr value _ _ _).bind fun _ => .ok _
      | prim op args =>
        exact (reports_primShape op args.length).bind fun _ =>
          (reports_operandCodes args _ _ _ _).bind fun _ => .ok _
      | ifElse cond thenB elseB =>
        exact (reports_expr cond _ _ _).bind fun _ => (reports_expr thenB _ _ _).bind fun _ =>
          (reports_expr elseB _ _ _).bind fun _ => .ok _
      | letIn bindings body =>
        exact (reports_bindingCode bindings _ _ _).bind fun _ =>
          (reports_expr body _ _ _).bind fun _ => .ok _
      | seq forms => exact reports_sequence forms _ _ _

/-- So it does for arguments, each of which is generated with the locals that the others leave. -/
theorem reports_exprs : ∀ (ns : List Node) (depth : Nat) (slots : Slots) (next : Nat),
    Reports (exprs c depth slots next ns)
  | [], _, _, _ => by
    rw [exprs]
    exact .ok _
  | n :: ns, _, _, _ => by
    rw [exprs]
    exact (reports_expr n _ _ _).bind fun _ => (reports_exprs ns _ _ _).bind fun _ => .ok _

/-- So it does for a sequence, of which only the last value stays. -/
theorem reports_sequence : ∀ (ns : List Node) (depth : Nat) (slots : Slots) (next : Nat),
    Reports (sequence c depth slots next ns)
  | [], _, _, _ => by
    rw [sequence]
    exact .ok _
  | [n], _, _, _ => by
    rw [sequence]
    exact reports_expr n _ _ _
  | n :: m :: ns, _, _, _ => by
    rw [sequence]
    · exact (reports_expr n _ _ _).bind fun _ => (reports_sequence (m :: ns) _ _ _).bind fun _ => .ok _
    · exact nofun

/-- So it does for bindings, of which each is in scope of the next. -/
theorem reports_bindingCode : ∀ (bs : List (String × Node)) (depth : Nat) (slots : Slots)
    (next : Nat), Reports (bindingCode c depth slots next bs)
  | [], _, _, _ => by
    rw [bindingCode]
    exact .ok _
  | (_, value) :: bs, _, _, _ => by
    rw [bindingCode]
    exact (reports_expr value _ _ _).bind fun _ => (reports_bindingCode bs _ _ _).bind fun _ => .ok _

/-- So it does for the operands that a primitive looks at. -/
theorem reports_operandCodes : ∀ (ns : List Node) (depth : Nat) (slots : Slots) (next count : Nat),
    Reports (operandCodes c depth slots next count ns)
  | _, _, _, _, 0 => by
    rw [operandCodes]
    exact .ok _
  | [], _, _, _, _ + 1 => by
    rw [operandCodes]
    · exact .ok _
    · exact nofun
  | n :: ns, _, _, _, count + 1 => by
    rw [operandCodes]
    exact (reports_expr n _ _ _).bind fun _ => (reports_operandCodes ns _ _ _ count).bind fun _ => .ok _

end

/-- Nothing fails without a report while the imports and definitions of a unit are laid out. -/
theorem reports_layout (u : CompUnit) (fns : List Defn) : Reports (Layout.ofUnit u fns) := by
  have hdefinition : ∀ (l : Layout) (n : Node), Reports (addDefinition l n) := by
    intro l n
    unfold addDefinition
    repeat' split
    all_goals first
      | exact .ok _
      | exact Reports.error.mpr rfl
  have himport : ∀ (l : Layout) (module name : String) (params results : Nat),
      Reports (addImport l module name params results) := by
    intro l module name params results
    unfold addImport
    repeat' split
    all_goals first
      | exact .ok _
      | exact Reports.error.mpr rfl
  have himports : ∀ (l : Layout) (n : Node), Reports (addImports l n) := by
    intro l n
    unfold addImports
    repeat' split
    all_goals first
      | exact .ok _
      | exact himport _ _ _ _ _
  exact (Reports.foldlM hdefinition _ _).bind fun _ => .foldlM himports _ _

/-- No unit makes generation fail without a report. -/
theorem reports_generate (u : CompUnit) (fns : List Defn) (maxDepth : Int) :
    Reports (generate u fns maxDepth) := by
  refine Reports.bind ?_ fun _ => .ok _
  refine (reports_layout u fns).bind fun layout => ?_
  refine (Reports.mapM (fun l => ?_) _).bind fun _ => ?_
  · exact (reports_expr _ _ _ _ _).bind fun _ => .ok _
  · refine Reports.bind ?_ fun _ => .ok _
    exact (reports_sequence _ _ _ _ _).bind fun _ => .ok _

end Codegen

/-! ## Compilation -/

/-- What is not valid although it was generated is reported, too. -/
theorem Backend.reports_buildWith (b : Backend) (fns : List Defn) (u : CompUnit) :
    Reports (b.buildWith fns u) := by
  refine (Codegen.reports_generate _ fns _).bind fun g => ?_
  dsimp only
  split
  · exact Reports.error.mpr rfl
  · exact .ok _

/-- A compiler reports the failures of its backends, and that it has none for a target. -/
theorem Compiler.reports_compile (c : Compiler) (u : CompUnit) : Reports (c.compile u).2 := by
  have hbuild : ∀ (c : Compiler) (b : Backend), Reports (c.build b u).2 := by
    intro c b
    have hruntime : Reports b.runtime := .mapError fun _ => rfl
    unfold build
    dsimp only
    split
    · rename_i e he
      exact Reports.error.mpr (hruntime e he)
    · exact b.reports_buildWith _ u
  unfold compile
  dsimp only
  split
  · exact Reports.error.mpr rfl
  · rename_i b _
    unfold produce
    dsimp only
    split
    · exact .ok _
    · rename_i c' _
      have hbuilt := hbuild c' b
      split
      · rename_i e heq
        rw [heq] at hbuilt
        exact hbuilt
      · exact .ok _

/-! ## Sessions -/

namespace Session

/-- What the reader finds is reported as a failure to read. -/
theorem reports_readAll (src : String) : Reports (Form.readAll src) := .mapError fun _ => rfl

/-- Environment forms and the analysis of all other forms report. -/
theorem reports_takeForm (frame : Frame) (f : Form) : Reports (takeForm frame f).2 := by
  have heffects : Reports (EnvForm.effects frame f) := by
    unfold EnvForm.effects
    repeat' split
    all_goals first
      | exact Reports.error.mpr rfl
      | exact .mapError fun _ => rfl
  unfold takeForm
  split
  · refine Reports.map ?_
    unfold EnvForm.replay
    split
    · rename_i e he
      exact Reports.error.mpr (heffects e he)
    · split
      · exact .ok _
      · exact Reports.error.mpr rfl
  · exact Reports.map (.mapError fun _ => rfl)

/-- So do forms that are taken one after the other, up to the first that fails. -/
theorem reports_extend (frame : Frame) (u : CompUnit) (forms : List Form) :
    Reports (extend frame u forms).2 := by
  induction forms generalizing frame u with
  | nil => exact .ok _
  | cons f forms ih =>
    have hf := reports_takeForm frame f
    unfold extend
    split
    · rename_i e heq
      rw [heq] at hf
      exact Reports.error.mpr (hf e rfl)
    · exact ih _ _

/-- A source that is not compiled as a unit fails with a report. -/
theorem reports_compile (s : Session) (c : Compiler) (module src : String) :
    Reports (s.compile c module src).2.2 := by
  have hread := reports_readAll src
  unfold Session.compile
  split
  · rename_i e he
    exact Reports.error.mpr (hread e he)
  · rename_i forms _
    have hextend := reports_extend s.frame { name := module, ns := s.ns, target := s.target } forms
    split
    · rename_i e heq
      rw [heq] at hextend
      exact Reports.error.mpr (hextend e rfl)
    · exact Reports.map (Compiler.reports_compile c _)

/-- A form that is required as a module of its own fails with a report. -/
theorem reports_requireForm (s : Session) (p : Progress) (name : String) (f : Form) {e : Failure}
    (h : (s.requireForm p name f).2 = some e) : e.sort.isSome := by
  obtain ⟨e', hf⟩ | ⟨es, node, q, hash, hf, hdef, hq⟩ | ⟨es, node, hf, hcurrent⟩ :=
    requireForm_cases s p f
  · rw [requireForm_error hf] at h
    cases h
    exact reports_takeForm p.frame f e hf
  · rw [requireForm_skip hf hdef hq] at h
    cases h
  · rw [requireForm_build hf hcurrent] at h
    have hcompile := Compiler.reports_compile p.compiler (s.part p.frame.ns name es node)
    unfold Progress.build at h
    dsimp only at h
    split at h
    · rename_i e' he
      cases h
      exact hcompile e (congrArg Prod.snd he)
    · cases h

/-- So do the forms of a source, up to the first that fails. -/
theorem reports_requireForms (s : Session) (stem : String) (i : Nat) (p : Progress)
    (forms : List Form) {e : Failure} (h : (s.requireForms stem i p forms).2 = some e) :
    e.sort.isSome := by
  induction forms generalizing p i with
  | nil => cases h
  | cons f forms ih =>
    unfold requireForms at h
    split at h
    · rename_i p' e' heq
      cases h
      exact reports_requireForm s p _ f (congrArg Prod.snd heq)
    · exact ih _ _ h

/-- Definitions that are not compiled one by one fail with a report. -/
theorem reports_require (s : Session) (c : Compiler) (modulePrefix src : String) :
    Reports (s.require c modulePrefix src).2.2 := by
  have hread := reports_readAll src
  unfold Session.require
  split
  · exact Reports.error.mpr rfl
  · split
    · rename_i e he
      exact Reports.error.mpr (hread e he)
    · dsimp only
      split
      · rename_i p e heq
        exact Reports.error.mpr (reports_requireForms _ _ _ _ _ (congrArg Prod.snd heq))
      · exact .ok _

end Session

end WasmLisp
