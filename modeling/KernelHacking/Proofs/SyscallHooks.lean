/-
Module: KernelHacking.Proofs.SyscallHooks
Layer: Proofs
Purpose: Loading and removing the two modules in any order. As long as each removed module is the one
  whose function stands in entry 233, the table is the original one under the layers of the loaded
  modules, and so no entry points to a module that is gone. A module that is removed while a later one is
  loaded comes back into the table when the later one is removed.
Imports: KernelHacking.Foundations.Overlay, KernelHacking.Model.SyscallTable
Trusted boundary: none (fully proved)
Main exports: SafeTable, InOrder, Nested, Nested.step, Nested.safe, hooks_safe, hooks_safe_nested,
  hooks_dangle
Open obligations: none
-/
import KernelHacking.Foundations.Overlay
import KernelHacking.Model.SyscallTable

namespace KernelHacking.SyscallTable

open Overlay

/-! ### What is expected of the table -/

/-- The module of a function, and where that module was loaded. -/
def Handler.owner : Handler → Option (ModuleName × Nat)
  | .kernel _ => none
  | .ptree base => some (.ptreemodule, base)
  | .getPagetableLayout base => some (.pagetable, base)
  | .exposePageTable base => some (.pagetable, base)

/-- Where a module is loaded. -/
def TableState.loadedAt (state : TableState) : ModuleName → Option Nat
  | .ptreemodule => state.ptreemodule.map PtreeModule.base
  | .pagetable => state.pagetable.map PagetableModule.base

/-- No entry points to a function of a module that is not loaded, and without modules the table is the
original one. -/
structure SafeTable (original : Nat → Nat) (state : TableState) : Prop where
  noDangling : ∀ nr name base, (state.syscall nr).owner = some (name, base) →
    state.loadedAt name = some base
  restored : (∀ name, state.loadedAt name = none) → state.syscall = (boot original).syscall

/-- The event removes no module but the one whose function stands in entry 233. -/
def InOrder (state : TableState) : ModuleEvent → Prop
  | .load _ _ => True
  | .unload name => ∃ base, (state.syscall NR_ptree).owner = some (name, base)

/-- Every event of a run is in order in the state in which it occurs. -/
def InOrderRun : TableState → List ModuleEvent → Prop
  | _, [] => True
  | state, event :: rest =>
      InOrder state event ∧ ∀ after, moduleStep state event = some after → InOrderRun after rest

/-! ### Loaded modules as layers -/

/-- A loaded module. -/
structure Layer where
  name : ModuleName
  base : Nat

/-- The entries of a module. -/
def Layer.hooks : Layer → List (Nat × Handler)
  | ⟨.ptreemodule, base⟩ => [(NR_ptree, .ptree base)]
  | ⟨.pagetable, base⟩ =>
      [(NR_get_pagetable_layout, .getPagetableLayout base), (NR_expose_page_table, .exposePageTable base)]

/-- The original table under the layers. -/
def layered (original : Nat → Nat) (layers : List Layer) : Nat → Handler :=
  stacked (boot original).syscall (layers.map Layer.hooks)

/-- The static variables of a loaded module, with the entries they are for. -/
def TableState.statics (state : TableState) : ModuleName → Option (List (Nat × Handler))
  | .ptreemodule => state.ptreemodule.map fun loaded => [(NR_ptree, loaded.oldcall)]
  | .pagetable => state.pagetable.map fun loaded =>
      [(NR_get_pagetable_layout, loaded.oldcallGetPagetableLayout),
        (NR_expose_page_table, loaded.oldcallExposePageTable)]

/-- A module that is loaded has saved what lies below it. -/
def SavedBelow (original : Nat → Nat) (state : TableState) : List Layer → Prop
  | [] => True
  | layer :: below =>
      state.loadedAt layer.name = some layer.base ∧
        state.statics layer.name = some (saved layer.hooks (layered original below)) ∧
        SavedBelow original state below

/-- The table is the original one under the layers, one for each loaded module. -/
structure Nested (original : Nat → Nat) (layers : List Layer) (state : TableState) : Prop where
  table : state.syscall = layered original layers
  saved : SavedBelow original state layers
  distinct : (layers.map Layer.name).Nodup
  complete : ∀ name, (state.loadedAt name).isSome → name ∈ layers.map Layer.name

/-! ### What an event does -/

/-- The modules but one are as they were. -/
def OthersKept (name : ModuleName) (state after : TableState) : Prop :=
  ∀ other, other ≠ name →
    after.loadedAt other = state.loadedAt other ∧ after.statics other = state.statics other

/-- Loading puts a layer on the table and saves what it covers. -/
theorem load_spec {state after : TableState} {name : ModuleName} {base : Nat}
    (loaded : moduleStep state (.load name base) = some after) :
    state.loadedAt name = none ∧ after.syscall = install (Layer.hooks ⟨name, base⟩) state.syscall ∧
      after.loadedAt name = some base ∧
      after.statics name = some (saved (Layer.hooks ⟨name, base⟩) state.syscall) ∧
      OthersKept name state after := by
  cases name with
  | ptreemodule =>
      cases before : state.ptreemodule with
      | some module => simp [moduleStep, before] at loaded
      | none =>
          simp only [moduleStep, before, Option.some.injEq] at loaded
          subst loaded
          refine ⟨by simp [TableState.loadedAt, before], rfl, rfl, rfl, ?_⟩
          rintro (_ | _) different
          · exact absurd rfl different
          · exact ⟨rfl, rfl⟩
  | pagetable =>
      cases before : state.pagetable with
      | some module => simp [moduleStep, before] at loaded
      | none =>
          simp only [moduleStep, before, Option.some.injEq] at loaded
          subst loaded
          refine ⟨by simp [TableState.loadedAt, before], rfl, rfl, rfl, ?_⟩
          rintro (_ | _) different
          · exact ⟨rfl, rfl⟩
          · exact absurd rfl different

/-- Removing writes back what was saved. -/
theorem unload_spec {state after : TableState} {name : ModuleName}
    (unloaded : moduleStep state (.unload name) = some after) :
    ∃ old, state.statics name = some old ∧ after.syscall = install old state.syscall ∧
      after.loadedAt name = none ∧ OthersKept name state after := by
  cases name with
  | ptreemodule =>
      obtain ⟨module, before, rfl⟩ := Option.map_eq_some_iff.mp unloaded
      refine ⟨_, by rw [TableState.statics, before]; rfl, rfl, rfl, ?_⟩
      rintro (_ | _) different
      · exact absurd rfl different
      · exact ⟨rfl, rfl⟩
  | pagetable =>
      obtain ⟨module, before, rfl⟩ := Option.map_eq_some_iff.mp unloaded
      refine ⟨_, by rw [TableState.statics, before]; rfl, rfl, rfl, ?_⟩
      rintro (_ | _) different
      · exact ⟨rfl, rfl⟩
      · exact absurd rfl different

/-! ### The layers under an event -/

/-- Every entry of a layer belongs to its module. -/
theorem owner_of_mem_hooks {layer : Layer} {entry : Nat × Handler} (listed : entry ∈ layer.hooks) :
    entry.2.owner = some (layer.name, layer.base) := by
  obtain ⟨name, base⟩ := layer
  cases name with
  | ptreemodule =>
      rw [List.mem_singleton.mp listed]
      rfl
  | pagetable =>
      rcases List.mem_cons.mp listed with rfl | second
      · rfl
      · rw [List.mem_singleton.mp second]
        rfl

/-- Every module replaces entry 233, so the topmost one stands there. -/
theorem layered_top (original : Nat → Nat) (layer : Layer) (below : List Layer) :
    (layered original (layer :: below) NR_ptree).owner = some (layer.name, layer.base) := by
  obtain ⟨name, base⟩ := layer
  cases name with
  | ptreemodule => rfl
  | pagetable => rfl

variable {original : Nat → Nat} {state after : TableState} {layers : List Layer}

/-- What is saved depends on the modules of the layers only. -/
theorem SavedBelow.congr {name : ModuleName} (kept : OthersKept name state after)
    (absent : name ∉ layers.map Layer.name) (below : SavedBelow original state layers) :
    SavedBelow original after layers := by
  induction layers with
  | nil => trivial
  | cons layer rest inductionHypothesis =>
      obtain ⟨isLoaded, isSaved, savedRest⟩ := below
      have different : layer.name ≠ name := by
        rintro rfl
        exact absent List.mem_cons_self
      obtain ⟨sameLoaded, sameStatics⟩ := kept layer.name different
      exact ⟨sameLoaded.trans isLoaded, sameStatics.trans isSaved,
        inductionHypothesis (fun inRest => absent (List.mem_cons_of_mem _ inRest)) savedRest⟩

/-- A module of a layer is loaded where the layer says. -/
theorem SavedBelow.loadedAt {layer : Layer} (below : SavedBelow original state layers)
    (listed : layer ∈ layers) : state.loadedAt layer.name = some layer.base := by
  induction layers with
  | nil => cases listed
  | cons first rest inductionHypothesis =>
      rcases List.mem_cons.mp listed with rfl | inRest
      · exact below.1
      · exact inductionHypothesis below.2.2 inRest

theorem Nested.boot (original : Nat → Nat) : Nested original [] (boot original) where
  table := rfl
  saved := trivial
  distinct := List.nodup_nil
  complete := by rintro (_ | _) ⟨⟩

/-- A loaded module becomes the topmost layer. -/
theorem Nested.load {name : ModuleName} {base : Nat} (nested : Nested original layers state)
    (loaded : moduleStep state (.load name base) = some after) :
    Nested original (⟨name, base⟩ :: layers) after := by
  obtain ⟨before, table, isLoaded, isSaved, kept⟩ := load_spec loaded
  have absent : name ∉ layers.map Layer.name := by
    intro listed
    obtain ⟨layer, inLayers, rfl⟩ := List.mem_map.mp listed
    rw [nested.saved.loadedAt inLayers] at before
    cases before
  rw [nested.table] at table isSaved
  refine ⟨table, ⟨isLoaded, isSaved, nested.saved.congr kept absent⟩,
    List.nodup_cons.mpr ⟨absent, nested.distinct⟩, fun other isSome => ?_⟩
  by_cases same : other = name
  · rw [same]
    exact List.mem_cons_self
  · rw [(kept other same).1] at isSome
    exact List.mem_cons_of_mem _ (nested.complete other isSome)

/-- Removing the topmost module uncovers the table below it. -/
theorem Nested.unload {name : ModuleName} (nested : Nested original layers state)
    (unloaded : moduleStep state (.unload name) = some after)
    (inOrder : InOrder state (.unload name)) : ∃ below, Nested original below after := by
  obtain ⟨old, isOld, table, gone, kept⟩ := unload_spec unloaded
  obtain ⟨base, onTop⟩ := inOrder
  rw [nested.table] at onTop table
  cases layers with
  | nil => cases onTop
  | cons layer below =>
      rw [layered_top, Option.some.injEq, Prod.mk.injEq] at onTop
      obtain ⟨rfl, _⟩ := onTop
      obtain ⟨_, isSaved, savedBelow⟩ := nested.saved
      obtain ⟨absent, distinct⟩ := List.nodup_cons.mp nested.distinct
      rw [isSaved, Option.some.injEq] at isOld
      rw [← isOld] at table
      refine ⟨below, table.trans (install_saved _ _), savedBelow.congr kept absent, distinct,
        fun other isSome => ?_⟩
      by_cases same : other = layer.name
      · rw [same, gone] at isSome
        cases isSome
      · rw [(kept other same).1] at isSome
        rcases List.mem_cons.mp (nested.complete other isSome) with isLayer | inBelow
        · exact absurd isLayer same
        · exact inBelow

theorem Nested.step {event : ModuleEvent} (nested : Nested original layers state)
    (stepped : moduleStep state event = some after) (inOrder : InOrder state event) :
    ∃ layers, Nested original layers after := by
  cases event with
  | load name base => exact ⟨_, nested.load stepped⟩
  | unload name => exact nested.unload stepped inOrder

theorem Nested.run {events : List ModuleEvent} (nested : Nested original layers state)
    (ran : runModules state events = some after) (inOrder : InOrderRun state events) :
    ∃ layers, Nested original layers after := by
  induction events generalizing state layers with
  | nil =>
      cases ran
      exact ⟨layers, nested⟩
  | cons event rest inductionHypothesis =>
      obtain ⟨middle, stepped, ranRest⟩ := Option.bind_eq_some_iff.mp ran
      obtain ⟨_, nestedMiddle⟩ := nested.step stepped inOrder.1
      exact inductionHypothesis nestedMiddle ranRest (inOrder.2 middle stepped)

/-- A table under the layers of the loaded modules is safe. -/
theorem Nested.safe (nested : Nested original layers state) : SafeTable original state where
  noDangling nr name base owned := by
    rw [nested.table] at owned
    rcases stacked_cases (SyscallTable.boot original).syscall (layers.map Layer.hooks) nr with
      isBottom | ⟨hooks, isLayer, listed⟩
    · rw [layered, isBottom] at owned
      cases owned
    · obtain ⟨layer, inLayers, rfl⟩ := List.mem_map.mp isLayer
      rw [layered, owner_of_mem_hooks listed, Option.some.injEq, Prod.mk.injEq] at owned
      obtain ⟨rfl, rfl⟩ := owned
      exact nested.saved.loadedAt inLayers
  restored unloaded := by
    cases layers with
    | nil => exact nested.table
    | cons layer below =>
        have isLoaded := nested.saved.1
        rw [unloaded layer.name] at isLoaded
        cases isLoaded

/-! ### Runs in order and out of order -/

/-- In every state of a run that removes its modules in order, no entry points to a module that is not
loaded, and without modules the table is the original one. -/
theorem hooks_safe (original : Nat → Nat) (events : List ModuleEvent) (state : TableState)
    (ran : runModules (boot original) events = some state)
    (inOrder : InOrderRun (boot original) events) : SafeTable original state := by
  obtain ⟨_, nested⟩ := (Nested.boot original).run ran inOrder
  exact nested.safe

/-- One module inside the other, then the other way round. -/
def nestedEvents : List ModuleEvent :=
  [.load .ptreemodule 1, .load .pagetable 2, .unload .pagetable, .unload .ptreemodule,
    .load .pagetable 3, .load .ptreemodule 4]

theorem hooks_safe_nested :
    ∃ state, runModules (boot id) nestedEvents = some state ∧
      (state.syscall NR_ptree).owner = some (.ptreemodule, 4) ∧ SafeTable id state := by
  refine ⟨_, rfl, rfl, hooks_safe id nestedEvents _ rfl ?_⟩
  refine ⟨trivial, ?_⟩
  rintro _ ⟨⟩
  refine ⟨trivial, ?_⟩
  rintro _ ⟨⟩
  refine ⟨⟨2, rfl⟩, ?_⟩
  rintro _ ⟨⟩
  refine ⟨⟨1, rfl⟩, ?_⟩
  rintro _ ⟨⟩
  refine ⟨trivial, ?_⟩
  rintro _ ⟨⟩
  exact ⟨trivial, fun _ _ => trivial⟩

/-- The module that is removed while a later one is loaded stands in the table again once the later one
is removed: with neither module loaded, entry 233 points to a function of the first. -/
theorem hooks_dangle :
    (∃ state, runModules (boot id)
        [.load .ptreemodule 1, .load .pagetable 2, .unload .ptreemodule, .unload .pagetable] =
          some state ∧ state.syscall NR_ptree = .ptree 1 ∧ ¬SafeTable id state) ∧
      ∃ state, runModules (boot id)
        [.load .pagetable 1, .load .ptreemodule 2, .unload .pagetable, .unload .ptreemodule] =
          some state ∧ state.syscall NR_get_pagetable_layout = .getPagetableLayout 1 ∧
            ¬SafeTable id state := by
  refine ⟨⟨_, rfl, rfl, fun safe => ?_⟩, ⟨_, rfl, rfl, fun safe => ?_⟩⟩
  · cases safe.noDangling NR_ptree .ptreemodule 1 rfl
  · cases safe.noDangling NR_get_pagetable_layout .pagetable 1 rfl

end KernelHacking.SyscallTable
