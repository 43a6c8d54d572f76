import ScriptMin.Grammar.Frame
import ScriptMin.Proofs.Setting.Basic

/-!
# Frames and settings

A construct is read in a frame, and the node that it is read as stands in a setting. The frame may
grant no more than the setting has: `Admits` compares what counts for expressions, and `Hosts` adds
what counts for statements. Each way in which frames change is matched by a way in which settings
do.
-/

namespace ScriptMin.Grammar

/-- The setting has what the frame grants an expression. -/
structure Admits (s : Setting) (f : Frame) : Prop where
  generator : f.generator → f.inParameters = false →
    s.inParameters = false ∧ ∃ e ∈ s.enclosing, e.generator
  isAsync : f.isAsync → ∃ e ∈ s.enclosing, e.isAsync
  allowsSuper : f.allowsSuper → s.inMember
  inFunction : f.inFunction → ∃ e, s.enclosing = some e

namespace Admits

variable {s : Setting} {f : Frame}

/-- Labels count for statements alone. -/
theorem inner (h : Admits s f) : Admits s.inner f := ⟨h.1, h.2, h.3, h.4⟩

theorem withStrict (h : Admits s f) (strict : Bool) : Admits s { f with strict } :=
  ⟨h.1, h.2, h.3, h.4⟩

theorem classBody (h : Admits s f) : Admits s f.classBody := ⟨h.1, h.2, h.3, h.4⟩

theorem switchBody (h : Admits s f) : Admits s.switchBody f.switchBody := ⟨h.1, h.2, h.3, h.4⟩

theorem statement (h : Admits s f) (isLoop : Bool) : Admits s (f.statement isLoop) :=
  ⟨h.1, h.2, h.3, h.4⟩

/-- In parameters there is no `yield`, whatever the function is. -/
theorem parameters (h : Admits s f) (generator : Bool) :
    Admits s.parameters { f with generator }.parameters :=
  ⟨fun _ => nofun, h.2, h.3, h.4⟩

theorem ofField (f : Frame) : Admits .ofField (f.method false false) :=
  ⟨nofun, nofun, fun _ => rfl, fun _ => ⟨_, rfl⟩⟩

end Admits

/-- The setting has what the frame grants a statement. -/
structure Hosts (s : Setting) (f : Frame) : Prop extends Admits s f where
  returns : f.inFunction → ∃ e ∈ s.enclosing, e.isField = false
  labels : f.labels.map Label.name = s.labels
  pending : ∀ l ∈ f.labels.take f.directLabels, l.name ∈ s.pending
  loopLabels : ∀ l ∈ f.labels, l.isLoop → l.name ∈ s.loopLabels
  inLoop : f.inLoop → s.inLoop
  inSwitch : f.inSwitch → s.inSwitch

namespace Hosts

variable {s : Setting} {f : Frame}

theorem withStrict (h : Hosts s f) (strict : Bool) : Hosts s { f with strict } where
  toAdmits := h.toAdmits.withStrict strict
  returns := h.returns
  labels := h.labels
  pending := h.pending
  loopLabels := h.loopLabels
  inLoop := h.inLoop
  inSwitch := h.inSwitch

theorem topLevel (strict : Bool) : Hosts .topLevel (.topLevel strict) where
  toAdmits := ⟨nofun, nofun, nofun, nofun⟩
  returns := nofun
  labels := rfl
  pending := nofun
  loopLabels := nofun
  inLoop := nofun
  inSwitch := nofun

theorem ofFunction (f : Frame) (isAsync generator : Bool) :
    Hosts (.ofFunction isAsync generator) (f.function generator isAsync) where
  toAdmits := ⟨fun h _ => ⟨rfl, _, rfl, h⟩, fun h => ⟨_, rfl, h⟩, nofun, fun _ => ⟨_, rfl⟩⟩
  returns _ := ⟨_, rfl, rfl⟩
  labels := rfl
  pending := nofun
  loopLabels := nofun
  inLoop := nofun
  inSwitch := nofun

theorem ofMethod (f : Frame) (isAsync generator : Bool) :
    Hosts (.ofMethod isAsync generator) (f.method generator isAsync) where
  toAdmits := ⟨fun h _ => ⟨rfl, _, rfl, h⟩, fun h => ⟨_, rfl, h⟩, fun _ => rfl, fun _ => ⟨_, rfl⟩⟩
  returns _ := ⟨_, rfl, rfl⟩
  labels := rfl
  pending := nofun
  loopLabels := nofun
  inLoop := nofun
  inSwitch := nofun

end Hosts

theorem Admits.ofArrow {s : Setting} {f : Frame} (h : Admits s f) (isAsync : Bool) :
    Hosts (s.ofArrow isAsync) (f.arrow isAsync) where
  toAdmits := ⟨nofun, fun h => ⟨_, rfl, h⟩, h.allowsSuper, fun _ => ⟨_, rfl⟩⟩
  returns _ := ⟨_, rfl, rfl⟩
  labels := rfl
  pending := nofun
  loopLabels := nofun
  inLoop := nofun
  inSwitch := nofun

namespace Hosts

variable {s : Setting} {f : Frame}

/-- Behind a label, which does not label a loop as long as none is read. -/
theorem labelled (h : Hosts s f) (label : String) :
    Hosts (s.labelled label) (f.labelled label) where
  toAdmits := ⟨h.generator, h.isAsync, h.allowsSuper, h.inFunction⟩
  returns := h.returns
  labels := congrArg (label :: ·) h.labels
  pending := by
    intro l hl
    obtain rfl | hl := List.mem_cons.1 hl
    · exact List.mem_cons_self
    · exact List.mem_cons_of_mem _ (h.pending l hl)
  loopLabels := by
    intro l hl hloop
    obtain rfl | hl := List.mem_cons.1 hl
    · cases hloop
    · exact h.loopLabels l hl hloop
  inLoop := h.inLoop
  inSwitch := h.inSwitch

/-- Within a statement that is neither a label nor a loop. -/
theorem statement (h : Hosts s f) : Hosts s.inner (f.statement false) where
  toAdmits := (h.toAdmits.statement false).inner
  returns := h.returns
  labels := h.labels
  pending := by simp [Frame.statement]
  loopLabels := h.loopLabels
  inLoop := h.inLoop
  inSwitch := h.inSwitch

/-- In the body of a loop. The labels right before it are labels of a loop from here on. -/
theorem loopBody (h : Hosts s f) : Hosts s.loopBody (f.statement true).loopBody where
  toAdmits := ⟨h.generator, h.isAsync, h.allowsSuper, h.inFunction⟩
  returns := h.returns
  labels := by
    rw [Setting.loopBody, Setting.inner, ← h.labels]
    show ((f.labels.take f.directLabels).map _ ++ f.labels.drop f.directLabels).map Label.name = _
    rw [List.map_append, List.map_map]
    exact (List.map_append ..).symm.trans (congrArg _ (List.take_append_drop ..))
  pending := by simp [Frame.statement, Frame.loopBody]
  loopLabels := by
    intro l hl hloop
    obtain hl | hl := List.mem_append.1 hl
    · obtain ⟨direct, hdirect, rfl⟩ := List.mem_map.1 hl
      exact List.mem_append_left _ (h.pending direct hdirect)
    · exact List.mem_append_right _ (h.loopLabels l (List.mem_of_mem_drop hl) hloop)
  inLoop _ := rfl
  inSwitch := h.inSwitch

/-- In the cases of a `switch`. -/
theorem switchBody (h : Hosts s.inner f) : Hosts s.switchBody f.switchBody where
  toAdmits := h.toAdmits.switchBody
  returns := h.returns
  labels := h.labels
  pending := h.pending
  loopLabels := h.loopLabels
  inLoop := h.inLoop
  inSwitch _ := rfl

/-- A label that is found is around the statement. -/
theorem mem_labels (h : Hosts s f) {name : String} {l : Label} (hl : f.findLabel? name = some l) :
    l ∈ f.labels ∧ l.name = name ∧ name ∈ s.labels := by
  have hmem := List.mem_of_find?_eq_some hl
  have hname : l.name = name := by simpa using List.find?_some hl
  refine ⟨hmem, hname, ?_⟩
  rw [← h.labels, ← hname]
  exact List.mem_map_of_mem hmem

/-- A label that is not found is none of those around the statement. -/
theorem not_mem_labels (h : Hosts s f) {name : String} (hl : f.findLabel? name = none) :
    name ∉ s.labels := by
  rw [← h.labels, List.mem_map]
  rintro ⟨l, hmem, rfl⟩
  have hl := List.find?_eq_none.1 hl l hmem
  simp at hl

end Hosts

end ScriptMin.Grammar
