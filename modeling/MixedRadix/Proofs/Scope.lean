import MixedRadix.Proofs.BodyLines
import MixedRadix.Proofs.Safety

/-!
# Names in scope

A function of a source file is closed if every name in its body resolves
(`FunctionSource.IsClosedIn`): functions that are called are imported or defined, all other names
are parameters, tables of the file or variables that a line before declared, and only variables and
parameters for writing are assigned to. That a kernel's function is given all arrays that its body
works on follows from the fact that the kernel can be run without the other ones
(`Config.isMadeOfAssignments_of_compile`).
-/

namespace MixedRadix

variable {R : Type}

/-! ### Scopes -/

/-- Each line uses names that are in scope or were declared by a line before it. -/
def LineSource.Scoped : List String → List LineSource → Prop
  | _, [] => True
  | scope, line :: rest => line.operands ⊆ scope ∧ Scoped (scope ++ line.bound.toList) rest

namespace FunctionSource

/-- What is read of the lines of the body. -/
def lines (f : FunctionSource) : List LineSource :=
  f.body.map LineSource.read

/-- The variables that the function declares. -/
def declared (f : FunctionSource) : List String :=
  f.lines.filterMap (·.bound)

/-- The functions that the function calls. -/
def called (f : FunctionSource) : List String :=
  f.lines.filterMap (·.callee)

/-- Every name in the function resolves. -/
structure IsClosedIn (file : Outline) (f : FunctionSource) : Prop where
  /-- No two tables, parameters or variables have the same name. -/
  nodup : (file.tables.map Prod.fst ++ f.parameters.map (·.name) ++ f.declared).Nodup
  /-- What is called is imported, or defined with as many parameters as there are arguments. -/
  resolves : ∀ line ∈ f.lines, ∀ name ∈ line.callee, name ∈ file.imports ∨
    ∃ g ∈ file.functions, g.name = name ∧ g.parameters.length = line.operands.length
  /-- All other names are tables, parameters or variables that were declared before. -/
  inScope : LineSource.Scoped (file.tables.map Prod.fst ++ f.parameters.map (·.name)) f.lines
  /-- Only variables and parameters for writing are assigned to. -/
  writable : ∀ line ∈ f.lines, ∀ name ∈ line.target,
    name ∈ f.declared ∨ ⟨name, true⟩ ∈ f.parameters

end FunctionSource

namespace LineSource

variable {scope : List String} {xs ys : List LineSource}

lemma scoped_append : Scoped scope (xs ++ ys) ↔
    Scoped scope xs ∧ Scoped (scope ++ xs.filterMap (·.bound)) ys := by
  induction xs generalizing scope with
  | nil => simp [Scoped]
  | cons line xs ih =>
    have hbound : (line :: xs).filterMap (·.bound) =
        line.bound.toList ++ xs.filterMap (·.bound) := by
      cases hline : line.bound <;> simp [hline]
    rw [List.cons_append, Scoped, Scoped, ih, hbound, ← List.append_assoc, and_assoc]

/-- Lines that use nothing but what is in scope from the start. -/
lemma scoped_of_subset (h : ∀ line ∈ xs, line.operands ⊆ scope) : Scoped scope xs := by
  induction xs generalizing scope with
  | nil => trivial
  | cons line xs ih =>
    refine ⟨h line (by simp), ih fun l hl => ?_⟩
    exact List.Subset.trans (h l (by simp [hl])) (List.subset_append_left _ _)

end LineSource

/-! ### Locations -/

namespace Kernel

/-- The location is a temporary, or in an array that the kernel's function is given; for writing, if
it is no sample. -/
def Gives (k : Kernel R) (s : Symbol) : Prop :=
  s.isTemp = true ∨
    ∃ p ∈ k.parameters, p.name = s.home k.slotNames ∧ (s.isInput = false → p.isWritten = true)

/-- Kernels whose operations are assignments, between temporaries and the arrays that the kernel's
function is given. -/
structure IsMadeOfAssignments (k : Kernel R) : Prop where
  strategy_eq : k.strategy = .unrolled
  exists_assign : ∀ o, .op o ∈ k.liveEntries → ∃ dst e, o.stmt = .assign dst e ∧
    dst.isInput = false ∧ ∀ s ∈ dst :: e.occurrences, k.Gives s

lemma gives_of_isCosine {k : Kernel R} (hcosine : k.transform.isCosine = true) {m : Machine R}
    (hlanes : m.lanes = ⟨#[], #[]⟩) {s : Symbol} (h : m.Has s) : k.Gives s := by
  cases s with
  | temp id => exact .inl rfl
  | input i | output i =>
    exact .inr (by simp [parameters, hcosine, Symbol.home, Symbol.isInput])
  | real i | imag i => simp [Machine.Has, Machine.contents?, hlanes] at h

lemma gives_of_fourier {k : Kernel R} (htransform : k.transform = .fourier) {m : Machine R}
    (hinput : m.input = #[]) (houtput : m.output = none) {s : Symbol} (h : m.Has s) :
    k.Gives s := by
  cases s with
  | temp id => exact .inl rfl
  | input i | output i => simp [Machine.Has, Machine.contents?, hinput, houtput] at h
  | real i | imag i =>
    exact .inr (by simp [parameters, laneParameters, htransform, Transform.isCosine, Symbol.home])

variable [Scalar R] {k : Kernel R}

/-- Every assignment of a kernel that runs has its locations. -/
lemma has_of_execute {m m' : Machine R} (h : k.execute m = .ok m') {o : Op R}
    (ho : .op o ∈ k.liveEntries) {dst : Symbol} {e : Expr R} (hstmt : o.stmt = .assign dst e) :
    dst.isInput = false ∧ ∀ s ∈ dst :: e.occurrences, m.Has s := by
  obtain ⟨hmem, hlive⟩ := op_mem_liveEntries.1 ho
  obtain ⟨a, a', hshape, hrun⟩ := Machine.exists_runStmt_of_execute h hmem
    (Instruction.liveOp?_eq_some.2 ⟨rfl, hlive⟩)
  rw [hstmt] at hrun
  obtain ⟨hinput, hhas⟩ := Machine.has_of_assign hrun
  exact ⟨hinput, fun s hs => (Machine.has_iff_of_shape hshape s).1 (hhas s hs)⟩

end Kernel

namespace Config

variable [Scalar R] {c : Config} {k : Kernel R}

/-- The kernel of a cosine transform runs without complex slots. -/
lemma exists_execute_of_isCosine (h : c.compile = .ok k) (hcosine : c.transform.isCosine = true) :
    ∃ m m' : Machine R, m.lanes = ⟨#[], #[]⟩ ∧ k.execute m = .ok m' := by
  obtain ⟨order, b, results, rfl, hb, -⟩ := exists_transforms_of_compile hcosine h
  have hsize : (Array.replicate c.size (Scalar.nan : R)).size = c.size := Array.size_replicate
  obtain ⟨m', -, hrun, -⟩ := exists_execute order hb hsize hsize
  exact ⟨_, m', rfl, hrun⟩

/-- The kernel of a Fourier transform runs without samples. -/
lemma exists_execute_of_fourier (h : c.compile = .ok k) (htransform : c.transform = .fourier) :
    ∃ m m' : Machine R, m.input = #[] ∧ m.output = none ∧ k.execute m = .ok m' := by
  obtain ⟨-, order, b, hrun, -, rfl⟩ := exists_of_compile h
  obtain ⟨results, hb⟩ := exists_performs_of_emit htransform hrun
  set k := c.kernel order b.eliminateDeadCode.2
  let slots : Array R := .replicate c.size Scalar.nan
  have hsize : slots.size = c.size := Array.size_replicate
  have hvalues := (Lanes.mk slots slots).shows_getD Scalar.nan
  rw [hsize] at hvalues
  let m : Machine R := ⟨k.freshTemps, #[], none, ⟨slots, slots⟩⟩
  obtain ⟨m', hexecute, -⟩ := hb.execute m _ (Machine.separate_iff.2 (.inr (.inl rfl)))
    (Kernel.hasTemps (k := k) rfl) hvalues
  exact ⟨m, m', rfl, rfl, hexecute⟩

/-- A kernel without calls runs assignments only, and its function is given all their arrays. -/
lemma isMadeOfAssignments_of_compile (h : c.compile = .ok k) (hstrategy : c.strategy = .unrolled) :
    k.IsMadeOfAssignments := by
  obtain ⟨htransform, hkernel⟩ : k.transform = c.transform ∧ k.strategy = c.strategy := by
    obtain ⟨-, order, b, -, -, rfl⟩ := exists_of_compile h
    exact ⟨rfl, rfl⟩
  refine ⟨hkernel.trans hstrategy, fun o ho => ?_⟩
  obtain ⟨hmem, hpruned⟩ := Kernel.op_mem_liveEntries.1 ho
  obtain ⟨-, dst, e, hstmt, -⟩ := op_isPlain_of_compile h (fun _ => hstrategy) hmem hpruned
  refine ⟨dst, e, hstmt, ?_⟩
  by_cases hcosine : c.transform.isCosine = true
  · obtain ⟨m, m', hlanes, hrun⟩ := exists_execute_of_isCosine h hcosine
    obtain ⟨hinput, hhas⟩ := Kernel.has_of_execute hrun ho hstmt
    exact ⟨hinput, fun s hs => Kernel.gives_of_isCosine (htransform ▸ hcosine) hlanes (hhas s hs)⟩
  · have hfourier : c.transform = .fourier := by
      cases hc : c.transform <;> simp_all [Transform.isCosine]
    obtain ⟨m, m', hin, hout, hrun⟩ := exists_execute_of_fourier h hfourier
    obtain ⟨hinput, hhas⟩ := Kernel.has_of_execute hrun ho hstmt
    exact ⟨hinput, fun s hs =>
      Kernel.gives_of_fourier (htransform.trans hfourier) hin hout (hhas s hs)⟩

end Config

end MixedRadix
