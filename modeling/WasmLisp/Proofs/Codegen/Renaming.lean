import Mathlib
import WasmLisp.Proofs.Codegen.Expr
import WasmLisp.Proofs.Renaming
import WasmLisp.Proofs.Results

/-!
# Code does not depend on the names of locals

* `expr_alike`: code generation gives the same for nodes that are equal up to the names of their
  locals, and fails on them with the same failure;
* `ofUnit_alike`: the layouts of units with such forms have the same indices;
* `generate_eq_of_outline`: a unit's module is a function of its outline and of its target's key.
-/

namespace WasmLisp

/-! ## The faces of nodes -/

namespace Node

/-- The node without its parts and without the names of its locals. -/
def face : Node → Node
  | .localVar _ => .localVar ""
  | .bindVar ns name _ => .bindVar ns name .absent
  | .defn ns name params _ => .defn ns name (params.map fun _ => "") .absent
  | .invoke ns name args => .invoke ns name (args.map fun _ => .absent)
  | .foreignCall name args => .foreignCall name (args.map fun _ => .absent)
  | .foreignSet name _ => .foreignSet name .absent
  | .prim op _ => .prim op []
  | .ifElse _ _ _ => .ifElse .absent .absent .absent
  | .letIn _ _ => .letIn [] .absent
  | .seq _ => .seq []
  | n => n

theorem Similar.face_eq {n n' : Node} (h : Similar n n') : n.face = n'.face := by
  obtain ⟨s, t, h⟩ := h
  cases n with
  | absent | const | varRef | foreignGet | defGlobal => rw [show n' = _ from h]
  | localVar | bindVar | foreignSet | prim | seq =>
    obtain ⟨_, rfl, _⟩ := h
    rfl
  | letIn =>
    obtain ⟨_, _, rfl, _⟩ := h
    rfl
  | ifElse =>
    obtain ⟨_, _, _, rfl, _⟩ := h
    rfl
  | defn ns name params body =>
    obtain ⟨params', body', rfl, hlen, _⟩ := h
    simp [face, hlen]
  | invoke ns name args =>
    obtain ⟨args', rfl, hargs⟩ := h
    simp [face, hargs.length_eq]
  | foreignCall name args =>
    obtain ⟨args', rfl, hargs⟩ := h
    simp [face, hargs.length_eq]

/-- The faces of the parts of a node. -/
def faces (n : Node) : List Node := n.flatten.map face

theorem map_face_eq {ns ns' : List Node} (h : List.Forall₂ Similar ns ns') :
    ns.map face = ns'.map face :=
  map_eq_of_forall₂ h fun _ _ hn => hn.face_eq

theorem AllAlike.map_faces {s t : List String} {ns ns' : List Node} (h : AllAlike s t ns ns') :
    ns.map faces = ns'.map faces :=
  map_eq_of_forall₂ (allAlike_iff.mp h) fun _ _ hn => map_face_eq hn.flatten

end Node

/-- The names that a unit refers to and does not define are those of the faces of its nodes. -/
theorem CompUnit.deps_eq {u u' : CompUnit} (h : u.nodes.map Node.face = u'.nodes.map Node.face) :
    u.deps = u'.deps := by
  have hdefined : ∀ ns : List Node, ns.flatMap definedBy = (ns.map Node.face).flatMap definedBy := by
    intro ns
    rw [List.flatMap_map]
    congr 1
    funext n
    cases n <;> rfl
  have hreferred : ∀ ns : List Node,
      ns.flatMap referredBy = (ns.map Node.face).flatMap referredBy := by
    intro ns
    rw [List.flatMap_map]
    congr 1
    funext n
    cases n <;> rfl
  unfold deps
  rw [hdefined u.nodes, hdefined u'.nodes, hreferred u.nodes, hreferred u'.nodes, h]

namespace Codegen

open Machine (Instr)
open Artifact (envModule varModule varDefModule)

/-! ## Layouts -/

/-- The functions are equal up to the names of their parameters and locals. -/
structure Linked.Alike (f f' : Linked) : Prop where
  exported : f.exported = f'.exported
  key : f.key = f'.key
  arity : f.defn.params.length = f'.defn.params.length
  body : Node.Alike f.defn.params.reverse f'.defn.params.reverse f.defn.body f'.defn.body

theorem Linked.Alike.refl (f : Linked) : f.Alike f := ⟨rfl, rfl, rfl, .refl _ _⟩

/-- The layouts are equal up to the names of parameters and locals. -/
structure Layout.Alike (l l' : Layout) : Prop where
  imports : l.imports = l'.imports
  keys : l.keys = l'.keys
  globals : l.globals = l'.globals
  funcs : List.Forall₂ Linked.Alike l.funcs l'.funcs

variable {l l' : Layout}

theorem Layout.Alike.addFunc (h : l.Alike l') (key : String × String) {f f' : Linked}
    (hf : f.Alike f') :
    Layout.Alike { l with funcs := l.funcs ++ [f], keys := l.keys ++ [key] }
      { l' with funcs := l'.funcs ++ [f'], keys := l'.keys ++ [key] } where
  imports := h.imports
  keys := by rw [h.keys]
  globals := h.globals
  funcs := List.rel_append h.funcs (.cons hf .nil)

theorem addDefinition_alike (h : l.Alike l') {n n' : Node} (hn : n.Similar n') :
    Result.Rel Layout.Alike (addDefinition l n) (addDefinition l' n') := by
  obtain ⟨s, t, hn⟩ := hn
  cases n with
  | defn ns name params body =>
    obtain ⟨params', body', rfl, hlen, hbody⟩ := hn
    simp only [addDefinition]
    by_cases hkey : l'.keys.contains (ns, name)
    · rw [h.keys, if_pos hkey, if_pos hkey]
      exact rfl
    · rw [if_neg (by rwa [h.keys]), if_neg hkey]
      exact h.addFunc (ns, name) ⟨rfl, rfl, hlen, hbody⟩
  | defGlobal name init =>
    rw [show n' = _ from hn]
    simp only [addDefinition]
    by_cases hname : l'.globals.any (·.1 == name)
    · rw [h.globals, if_pos hname, if_pos hname]
      exact rfl
    · rw [if_neg (by rwa [h.globals]), if_neg hname]
      exact ⟨h.imports, h.keys, by rw [h.globals], h.funcs⟩
  | absent | const | varRef | foreignGet =>
    rw [show n' = _ from hn]
    exact h
  | localVar | bindVar | foreignSet | prim | seq | invoke | foreignCall =>
    obtain ⟨_, rfl, _⟩ := hn
    exact h
  | letIn =>
    obtain ⟨_, _, rfl, _⟩ := hn
    exact h
  | ifElse =>
    obtain ⟨_, _, _, rfl, _⟩ := hn
    exact h

/-- Which functions calls among nodes reach can be seen from the faces of the nodes. -/
theorem newlyReached_face (fns : List Defn) (l : Layout) (nodes : List Node) :
    newlyReached fns l (nodes.map Node.face) = newlyReached fns l nodes := by
  induction nodes generalizing l with
  | nil => rfl
  | cons n nodes ih =>
    cases n with
    | invoke ns name args =>
      rw [List.map_cons, Node.face, newlyReached, newlyReached]
      simp only [ih]
    | _ => exact ih l

theorem newlyReached_alike (fns : List Defn) (h : l.Alike l') (nodes : List Node) :
    (newlyReached fns l nodes).1.Alike (newlyReached fns l' nodes).1 ∧
      (newlyReached fns l nodes).2 = (newlyReached fns l' nodes).2 := by
  induction nodes generalizing l l' with
  | nil => exact ⟨h, rfl⟩
  | cons n nodes ih =>
    cases n with
    | invoke ns name args =>
      rw [newlyReached, newlyReached, h.keys]
      split
      · exact ih h
      · split
        · exact ih h
        · rename_i d _
          obtain ⟨hl, hfound⟩ := ih (h.addFunc (ns, name) (.refl { defn := d, exported := false }))
          rw [h.keys] at hl hfound
          exact ⟨hl, congrArg (d.node :: ·) hfound⟩
    | _ => exact ih h

/-- Linking goes through the faces of the parts of the waiting trees. -/
theorem link_alike (fns : List Defn) (fuel : Nat) {waiting waiting' : List Node} (h : l.Alike l')
    (hw : waiting.map Node.faces = waiting'.map Node.faces) :
    (link fns fuel l waiting).Alike (link fns fuel l' waiting') := by
  induction fuel generalizing l l' waiting waiting' with
  | zero => exact h
  | succ fuel ih =>
    cases waiting with
    | nil =>
      cases waiting' with
      | nil => exact h
      | cons root' rest' => simp at hw
    | cons root rest =>
      cases waiting' with
      | nil => simp at hw
      | cons root' rest' =>
        simp only [List.map_cons, List.cons.injEq] at hw
        have hroot : newlyReached fns l' root'.flatten = newlyReached fns l' root.flatten := by
          rw [← newlyReached_face fns l' root'.flatten, ← newlyReached_face fns l' root.flatten]
          exact congrArg _ hw.1.symm
        rw [link, link, hroot]
        obtain ⟨hl, hfound⟩ := newlyReached_alike fns h root.flatten
        refine ih hl ?_
        rw [hfound, List.map_append, List.map_append, hw.2]

theorem callCount_face (nodes : List Node) : callCount (nodes.map Node.face) = callCount nodes := by
  unfold callCount
  rw [List.countP_map]
  congr 1
  funext n
  cases n <;> rfl

theorem addImport_alike (h : l.Alike l') (module name : String) (params results : Nat) :
    Result.Rel Layout.Alike (addImport l module name params results)
      (addImport l' module name params results) := by
  unfold addImport
  rw [h.imports]
  split
  · exact ⟨rfl, h.keys, h.globals, h.funcs⟩
  · split
    · exact rfl
    · exact h

theorem addGlobalImport_alike (h : l.Alike l') (name : String) :
    (addGlobalImport l name).Alike (addGlobalImport l' name) := by
  unfold addGlobalImport
  rw [h.imports, h.globals]
  split
  · exact h
  · exact ⟨rfl, h.keys, rfl, h.funcs⟩

theorem addImports_face (l : Layout) (n : Node) : addImports l n.face = addImports l n := by
  cases n <;> simp [Node.face, addImports]

theorem addImports_alike (h : l.Alike l') {n n' : Node} (hn : n.Similar n') :
    Result.Rel Layout.Alike (addImports l n) (addImports l' n') := by
  rw [← addImports_face l', ← hn.face_eq, addImports_face]
  cases n with
  | invoke ns name args =>
    simp only [addImports, h.keys]
    split
    · exact h
    · exact addImport_alike h _ _ _ _
  | foreignCall | varRef | bindVar => exact addImport_alike h _ _ _ _
  | foreignGet | foreignSet => exact addGlobalImport_alike h _
  | _ => exact h

theorem Linked.Alike.node {f f' : Linked} (h : f.Alike f') :
    Node.Alike [] [] f.defn.node f'.defn.node := by
  obtain ⟨hns, hname⟩ := Prod.mk.inj h.key
  refine ⟨f'.defn.params, f'.defn.body, ?_, h.arity, h.body⟩
  rw [Defn.node, hns, hname]

/-- The preamble functions among alike functions are alike. -/
theorem Layout.Alike.added (h : l.Alike l') :
    Node.AllAlike [] [] ((l.funcs.filter (!·.exported)).map (·.defn.node))
      ((l'.funcs.filter (!·.exported)).map (·.defn.node)) := by
  have hadded := List.rel_filter (p := (!·.exported)) (q := (!·.exported))
    (fun _ _ hf => by simp [hf.exported]) h.funcs
  exact Node.allAlike_iff.mpr (List.rel_map (fun _ _ hf => hf.node) hadded)

/-- Units whose forms are equal up to the names of locals have such layouts, or none for the same
reason. -/
theorem ofUnit_alike {u u' : CompUnit} (h : Node.AllAlike [] [] u.forms u'.forms)
    (fns : List Defn) : Result.Rel Layout.Alike (Layout.ofUnit u fns) (Layout.ofUnit u' fns) := by
  have hnodes : List.Forall₂ Node.Similar u.nodes u'.nodes := h.flattenAll
  have hfuel : linkFuel fns u.forms = linkFuel fns u'.forms := by
    unfold linkFuel
    rw [← callCount_face (Node.flattenAll u.forms), ← callCount_face (Node.flattenAll u'.forms),
      Node.map_face_eq h.flattenAll, h.length_eq]
  have hempty : Layout.Alike {} {} := ⟨rfl, rfl, rfl, .nil⟩
  unfold Layout.ofUnit
  rw [← hfuel]
  apply Result.Rel.bind
  · exact Result.Rel.foldlM hnodes (fun _ _ _ _ hl hn => addDefinition_alike hl hn) hempty
  · intro d d' hd
    have hlinked := link_alike fns (linkFuel fns u.forms) hd h.map_faces
    have hreached := (h.append hlinked.added).flattenAll
    exact Result.Rel.foldlM hreached (fun _ _ _ _ hl hn => addImports_alike hl hn) hlinked

/-! ## Expressions -/

/-- The contexts give the same limit and the same indices. -/
structure Context.Alike (c c' : Context) : Prop where
  maxDepth : c.maxDepth = c'.maxDepth
  importIndex : ∀ module name, c.layout.importIndex module name = c'.layout.importIndex module name
  funcIndex? : ∀ ns name, c.layout.funcIndex? ns name = c'.layout.funcIndex? ns name
  globalIndex : ∀ name, c.layout.globalIndex name = c'.layout.globalIndex name

theorem Layout.Alike.context (h : l.Alike l') (maxDepth : Nat) :
    Context.Alike { layout := l, maxDepth } { layout := l', maxDepth } where
  maxDepth := rfl
  importIndex module name := by
    unfold Layout.importIndex Layout.funcImports
    rw [h.imports]
  funcIndex? ns name := by
    unfold Layout.funcIndex? Layout.funcImports
    rw [h.imports, h.keys]
    congr 1
    funext i
    have harity : l.funcs[i]?.map (·.defn.params.length) = l'.funcs[i]?.map (·.defn.params.length) := by
      rw [← List.getElem?_map, ← List.getElem?_map,
        map_eq_of_forall₂ h.funcs fun _ _ hf => hf.arity]
    cases hf : l.funcs[i]? <;> cases hf' : l'.funcs[i]? <;> simp_all
  globalIndex name := by
    unfold Layout.globalIndex Layout.globalImports
    rw [h.imports, h.globals]

/-- Slots of two scopes that give locals at equal distances the same index. -/
structure SlotsAlike (s t : List String) (slots slots' : Slots) : Prop where
  names : slots.map Prod.fst = s
  names' : slots'.map Prod.fst = t
  indices : slots.map Prod.snd = slots'.map Prod.snd

theorem SlotsAlike.cons {s t : List String} {slots slots' : Slots}
    (h : SlotsAlike s t slots slots') (name name' : String) (i : Nat) :
    SlotsAlike (name :: s) (name' :: t) ((name, i) :: slots) ((name', i) :: slots') :=
  ⟨by simp [h.names], by simp [h.names'], by simp [h.indices]⟩

/-- A local's slot is found by the distance to its binding. -/
theorem lookup_eq_scopeIndex? (slots : Slots) (name : String) :
    slots.lookup name =
      (Node.scopeIndex? (slots.map Prod.fst) name).bind fun i => (slots.map Prod.snd)[i]? := by
  induction slots with
  | nil => rfl
  | cons b slots ih =>
    obtain ⟨a, i⟩ := b
    unfold Node.scopeIndex? at ih ⊢
    rw [List.lookup_cons, List.map_cons, List.map_cons, List.findIdx?_cons]
    by_cases h : name = a
    · subst h
      simp
    · rw [beq_false_of_ne h, beq_false_of_ne (Ne.symm h), ih]
      simp [Option.bind_map, Function.comp_def]

theorem SlotsAlike.lookup_eq {s t : List String} {slots slots' : Slots}
    (h : SlotsAlike s t slots slots') {name name' : String}
    (hname : Node.scopeIndex? s name = Node.scopeIndex? t name') :
    slots.lookup name = slots'.lookup name' := by
  rw [lookup_eq_scopeIndex?, lookup_eq_scopeIndex?, h.names, h.names', h.indices, hname]

/-- A local that has no slot has no binding. -/
theorem SlotsAlike.scopeIndex?_eq_none {s t : List String} {slots slots' : Slots}
    (h : SlotsAlike s t slots slots') {name : String} (hname : slots'.lookup name = none) :
    Node.scopeIndex? t name = none := by
  rw [List.lookup_eq_none_iff] at hname
  rw [← h.names', Node.scopeIndex?, List.findIdx?_eq_none_iff]
  intro a ha
  obtain ⟨b, hb, rfl⟩ := List.mem_map.mp ha
  have := hname b hb
  grind

variable {c c' : Context}

/-- What the codes of bindings of two scopes have in common. -/
structure BindingsCoded (s t : List String) (r r' : List Instr × Slots × Nat) : Prop where
  code : r.1 = r'.1
  slots : SlotsAlike s t r.2.1 r'.2.1
  next : r.2.2 = r'.2.2

mutual

/-- Nodes that are equal up to the names of their locals have the same code, or fail with the same
failure. -/
theorem expr_alike (hc : c.Alike c') : ∀ {s t : List String} {n n' : Node} {slots slots' : Slots},
    Node.Alike s t n n' → SlotsAlike s t slots slots' → ∀ depth next,
    expr c depth slots next n = expr c' depth slots' next n'
  | s, t, .localVar name, n', slots, slots', h, hs, depth, next => by
    obtain ⟨name', rfl, hname, hfree⟩ := h
    rw [expr.eq_def, expr.eq_def, hc.maxDepth]
    dsimp only
    rw [hs.lookup_eq hname]
    -- a local without a slot is named in the failure
    cases hi : slots'.lookup name' with
    | some i => rfl
    | none => simp only [hfree (hname ▸ hs.scopeIndex?_eq_none hi)]
  | s, t, .bindVar ns name init, n', slots, slots', ⟨init', hn, hinit⟩, hs, depth, next => by
    subst hn
    rw [expr.eq_def, expr.eq_def, hc.maxDepth]
    simp only [expr_alike hc hinit hs, hc.importIndex]
  | s, t, .invoke ns name args, n', slots, slots', ⟨args', hn, hargs⟩, hs, depth, next => by
    subst hn
    rw [expr.eq_def, expr.eq_def, hc.maxDepth]
    simp only [exprs_alike hc hargs hs, hc.importIndex, hc.funcIndex?, hargs.length_eq]
  | s, t, .foreignCall name args, n', slots, slots', ⟨args', hn, hargs⟩, hs, depth, next => by
    subst hn
    rw [expr.eq_def, expr.eq_def, hc.maxDepth]
    simp only [exprs_alike hc hargs hs, hc.importIndex]
  | s, t, .foreignSet name value, n', slots, slots', ⟨value', hn, hvalue⟩, hs, depth, next => by
    subst hn
    rw [expr.eq_def, expr.eq_def, hc.maxDepth]
    simp only [expr_alike hc hvalue hs, hc.globalIndex]
  | s, t, .prim op args, n', slots, slots', ⟨args', hn, hargs⟩, hs, depth, next => by
    subst hn
    rw [expr.eq_def, expr.eq_def, hc.maxDepth]
    simp only [operandCodes_alike hc hargs hs, hargs.length_eq]
  | s, t, .ifElse a b e, n', slots, slots', ⟨a', b', e', hn, ha, hb, he⟩, hs, depth, next => by
    subst hn
    rw [expr.eq_def, expr.eq_def, hc.maxDepth]
    simp only [expr_alike hc ha hs, expr_alike hc hb hs, expr_alike hc he hs]
  | s, t, .letIn bindings body, n', slots, slots', ⟨bindings', body', hn, hbindings, hbody⟩, hs,
    depth, next => by
    subst hn
    rw [expr.eq_def, expr.eq_def, hc.maxDepth]
    split
    · rfl
    apply Result.Rel.eq
    apply Result.Rel.bind (bindingCode_alike hc hbindings hs (depth + 1) next)
    rintro ⟨code, inner, k⟩ ⟨code', inner', k'⟩ ⟨hcode, hinner, hk⟩
    simp only at hcode hinner hk
    subst hcode hk
    show Result.Rel Eq (expr c (depth + 1) inner k body >>= _) _
    rw [expr_alike hc hbody hinner]
    exact .refl _
  | s, t, .seq forms, n', slots, slots', ⟨forms', hn, hforms⟩, hs, depth, next => by
    subst hn
    rw [expr.eq_def, expr.eq_def, hc.maxDepth]
    simp only [sequence_alike hc hforms hs]
  | s, t, .absent, n', slots, slots', h, hs, depth, next
  | s, t, .const v, n', slots, slots', h, hs, depth, next
  | s, t, .defGlobal name init, n', slots, slots', h, hs, depth, next => by
    rw [show n' = _ from h, expr.eq_def, expr.eq_def, hc.maxDepth]
  | s, t, .defn ns name params body, n', slots, slots', ⟨params', body', hn, _⟩, hs, depth, next => by
    rw [hn, expr.eq_def, expr.eq_def, hc.maxDepth]
  | s, t, .varRef ns name, n', slots, slots', h, hs, depth, next => by
    rw [show n' = _ from h, expr.eq_def, expr.eq_def, hc.maxDepth]
    simp only [hc.importIndex]
  | s, t, .foreignGet name, n', slots, slots', h, hs, depth, next => by
    rw [show n' = _ from h, expr.eq_def, expr.eq_def, hc.maxDepth]
    simp only [hc.globalIndex]

theorem exprs_alike (hc : c.Alike c') : ∀ {s t : List String} {ns ns' : List Node} {slots slots' : Slots},
    Node.AllAlike s t ns ns' → SlotsAlike s t slots slots' → ∀ depth next,
    exprs c depth slots next ns = exprs c' depth slots' next ns'
  | s, t, [], ns', slots, slots', h, hs, depth, next => by
    rw [show ns' = [] from h, exprs, exprs]
  | s, t, n :: rest, ns', slots, slots', ⟨n', rest', hns, hn, hrest⟩, hs, depth, next => by
    rw [hns, exprs, exprs]
    simp only [expr_alike hc hn hs, exprs_alike hc hrest hs]

theorem sequence_alike (hc : c.Alike c') :
    ∀ {s t : List String} {ns ns' : List Node} {slots slots' : Slots},
    Node.AllAlike s t ns ns' → SlotsAlike s t slots slots' → ∀ depth next,
    sequence c depth slots next ns = sequence c' depth slots' next ns'
  | s, t, [], ns', slots, slots', h, hs, depth, next => by
    rw [show ns' = [] from h, sequence, sequence]
  | s, t, [n], ns', slots, slots', ⟨n', rest', hns, hn, hrest⟩, hs, depth, next => by
    rw [hns, show rest' = [] from hrest, sequence, sequence]
    exact expr_alike hc hn hs depth next
  | s, t, n :: m :: rest, ns', slots, slots', ⟨n', rest', hns, hn, hrest⟩, hs, depth, next => by
    have hmore := sequence_alike hc hrest hs
    obtain ⟨m', more', rfl, _⟩ := hrest
    rw [hns, sequence, sequence]
    · simp only [expr_alike hc hn hs, hmore]
    · simp
    · simp

theorem bindingCode_alike (hc : c.Alike c') : ∀ {s t : List String} {bs bs' : List (String × Node)}
    {slots slots' : Slots}, Node.BindingsAlike s t bs bs' → SlotsAlike s t slots slots' →
    ∀ depth next, Result.Rel
      (BindingsCoded ((bs.map Prod.fst).reverse ++ s) ((bs'.map Prod.fst).reverse ++ t))
      (bindingCode c depth slots next bs) (bindingCode c' depth slots' next bs')
  | s, t, [], bs', slots, slots', h, hs, depth, next => by
    rw [show bs' = [] from h, bindingCode, bindingCode]
    exact ⟨rfl, hs, rfl⟩
  | s, t, (name, n) :: rest, bs', slots, slots', ⟨name', n', rest', hbs, hn, hrest⟩, hs, depth,
    next => by
    rw [hbs, bindingCode, bindingCode, expr_alike hc hn hs]
    cases expr c' depth slots' next n' with
    | error e => exact rfl
    | ok r =>
      obtain ⟨code, k⟩ := r
      apply Result.Rel.bind (bindingCode_alike hc hrest (hs.cons name name' k) depth (k + 1))
      rintro ⟨more, inner, j⟩ ⟨more', inner', j'⟩ ⟨hmore, hinner, hj⟩
      simp only at hmore hinner hj
      subst hmore hj
      exact ⟨rfl, by simpa using hinner, rfl⟩

theorem operandCodes_alike (hc : c.Alike c') :
    ∀ {s t : List String} {ns ns' : List Node} {slots slots' : Slots},
    Node.AllAlike s t ns ns' → SlotsAlike s t slots slots' → ∀ depth next count,
    operandCodes c depth slots next count ns = operandCodes c' depth slots' next count ns'
  | s, t, ns, ns', slots, slots', h, hs, depth, next, 0 => by
    rw [operandCodes, operandCodes]
  | s, t, [], ns', slots, slots', h, hs, depth, next, count + 1 => by
    rw [show ns' = [] from h, operandCodes, operandCodes] <;> simp
  | s, t, n :: rest, ns', slots, slots', ⟨n', rest', hns, hn, hrest⟩, hs, depth, next,
    count + 1 => by
    rw [hns, operandCodes, operandCodes]
    simp only [expr_alike hc hn hs, operandCodes_alike hc hrest hs]

end

/-! ## Modules -/

theorem slotsAlike_params {params params' : List String} (h : params.length = params'.length) :
    SlotsAlike params.reverse params'.reverse (paramSlots params) (paramSlots params') where
  names := by simp [paramSlots]
  names' := by simp [paramSlots]
  indices := by simp [paramSlots, h]

theorem functionCode_alike (hc : c.Alike c') {f f' : Linked} (hf : f.Alike f') :
    functionCode c f.defn = functionCode c' f'.defn := by
  unfold functionCode
  dsimp only
  rw [hf.arity, expr_alike hc hf.body (slotsAlike_params hf.arity)]

theorem entryCode_alike (hc : c.Alike c') {forms forms' : List Node}
    (h : Node.AllAlike [] [] forms forms') : entryCode c forms = entryCode c' forms' := by
  unfold entryCode
  rw [sequence_alike hc h ⟨rfl, rfl, rfl⟩]

/-- The programs are equal up to the names of parameters and locals in their layouts. -/
structure Program.Alike (p p' : Program) : Prop where
  layout : p.layout.Alike p'.layout
  functions : p.functions = p'.functions
  entry : p.entry = p'.entry
  entryName : p.entryName = p'.entryName

theorem program_alike {u u' : CompUnit} (h : Node.AllAlike [] [] u.forms u'.forms)
    (hentry : u.entrySymbol = u'.entrySymbol) (fns : List Defn) (maxDepth : Nat) :
    Result.Rel Program.Alike (Program.ofUnit u fns maxDepth) (Program.ofUnit u' fns maxDepth) := by
  unfold Program.ofUnit
  apply Result.Rel.bind (ofUnit_alike h fns)
  intro l l' hl
  have hc := hl.context maxDepth
  have hfunctions := mapM_eq_of_forall₂ hl.funcs fun _ _ hf => functionCode_alike hc hf
  dsimp only
  rw [hfunctions, entryCode_alike hc h, hentry]
  apply Result.Rel.bind (.refl _)
  rintro functions _ rfl
  apply Result.Rel.bind (.refl _)
  rintro entry _ rfl
  exact ⟨hl, rfl, rfl, rfl⟩

theorem Linked.Alike.qualified_eq {f f' : Linked} (h : f.Alike f') :
    f.defn.qualified = f'.defn.qualified :=
  congrArg (fun k : String × String => Symbol.qualify k.1 k.2) h.key

theorem Program.Alike.exports_eq {p p' : Program} (h : p.Alike p') : p.exports = p'.exports := by
  unfold Program.exports Layout.funcImports Layout.globalImports
  rw [h.layout.imports, h.layout.globals, h.layout.funcs.length_eq, h.entryName]
  dsimp only
  congr 2
  apply filterMap_zipIdx_eq_of_forall₂ h.layout.funcs
  intro f f' i hf
  simp only [hf.exported, hf.qualified_eq]

theorem Program.Alike.toModule_eq {p p' : Program} (h : p.Alike p') : p.toModule = p'.toModule := by
  unfold Program.toModule
  rw [h.layout.imports, h.layout.globals, h.functions, h.entry, h.exports_eq]

theorem manifestOf_alike {u u' : CompUnit} (h : u.outline = u'.outline)
    (htarget : u.target.key = u'.target.key) (hl : l.Alike l') :
    manifestOf u l = manifestOf u' l' := by
  have hforms := CompUnit.alike_of_outline h
  have hhash : u.hash = u'.hash := by rw [CompUnit.hash, CompUnit.hash, h]
  have hfunctions := map_eq_of_forall₂
    (List.rel_filter (p := (·.exported)) (q := (·.exported)) (fun _ _ hf => by simp [hf.exported])
      hl.funcs)
    (f := fun f => (f.defn.qualified, (f.defn.params.length : Int)))
    (g := fun f => (f.defn.qualified, (f.defn.params.length : Int)))
    fun _ _ hf => by rw [hf.qualified_eq, hf.arity]
  unfold manifestOf CompUnit.entrySymbol
  rw [hhash, htarget, hl.globals, hl.imports, CompUnit.effects_eq_of_outline h, hfunctions,
    CompUnit.deps_eq (Node.map_face_eq hforms.flattenAll)]

/-- What is generated is a function of the outline and of the target's key. -/
theorem generate_congr {u u' : CompUnit} (htarget : u.target.key = u'.target.key)
    (h : u.outline = u'.outline) (fns : List Defn) (maxDepth : Int) :
    generate u fns maxDepth = generate u' fns maxDepth := by
  have hforms := CompUnit.alike_of_outline h
  have hentry : u.entrySymbol = u'.entrySymbol := by
    rw [CompUnit.entrySymbol, CompUnit.entrySymbol, CompUnit.hash, CompUnit.hash, h]
  apply Result.Rel.eq
  unfold generate
  apply Result.Rel.bind (program_alike hforms hentry fns (effectiveDepth maxDepth))
  intro p p' hp
  show Generated.mk _ _ = Generated.mk _ _
  rw [manifestOf_alike h htarget hp.layout, hp.toModule_eq]

/-- Equal hash inputs mean equal code: units of equal encoded outlines for targets of equal keys
have the same module, with the same entry and the same manifest, or fail with the same failure,
whatever the units and their namespaces and locals are called. -/
theorem generate_eq_of_outline {u u' : CompUnit} (htarget : u.target.key = u'.target.key)
    (h : u.outline.encode = u'.outline.encode) (fns : List Defn) (maxDepth : Int) :
    generate u fns maxDepth = generate u' fns maxDepth :=
  generate_congr htarget (CompUnit.outline_eq_of_encode h) fns maxDepth

/-- A function of two parameters whose `let` shadows one, and a call of it. -/
def shadowing (unit ns a b : String) : CompUnit :=
  { name := unit, ns
    forms := [.defn "user" "f" [a, b]
                (.letIn [(a, .prim "+" [.localVar a, .localVar b])] (.localVar a)),
              .invoke "user" "f" [.const 1, .const 2]] }

/-- The names of the unit, of its namespace and of the locals make no difference. -/
theorem generate_eq_of_outline_shadowing :
    shadowing "first" "user" "a" "b" ≠ shadowing "second" "other" "x" "y" ∧
      ∀ maxDepth, generate (shadowing "first" "user" "a" "b") [] maxDepth =
        generate (shadowing "second" "other" "x" "y") [] maxDepth := by
  have houtline : (shadowing "first" "user" "a" "b").outline =
      (shadowing "second" "other" "x" "y").outline := by rfl
  constructor
  · intro h
    simp [shadowing] at h
  · intro maxDepth
    apply generate_eq_of_outline
    · rfl
    · rw [houtline]

end Codegen

end WasmLisp
