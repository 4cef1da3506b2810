import HybridBuild.Proofs.Variant.Solution

/-!
# Modules that are planned alike

A module can stand in for another one of the same name and architectures when all of its
variants are planned alike. Standing in for all modules of a pass, such modules make the
same requests and come to the same plan.
-/
namespace HybridBuild

/-- With these facts the module `m'` is planned as `m` is with those. -/
structure PlannedAlike (facts facts' : Facts) (outDir : Path) (m m' : ModuleDecl) : Prop where
  name : m'.name = m.name
  archs : m'.archs = m.archs
  plan : ∀ outputs arch,
    m'.planVariant facts' outDir outputs arch = m.planVariant facts outDir outputs arch

namespace Pass

variable {facts facts' : Facts} {outDir : Path} {f : ModuleDecl → ModuleDecl}

theorem variantsOf_map {modules : List ModuleDecl} (h : ∀ m ∈ modules, (f m).archs = m.archs) :
    variantsOf (modules.map f) = (variantsOf modules).map fun v => (f v.1, v.2) := by
  have hone : ∀ m ∈ modules, (f m).archs.map (fun arch => (f m, arch)) =
      (m.archs.map fun arch => (m, arch)).map fun v => (f v.1, v.2) := by
    intro m hm
    simp [h m hm]
  rw [variantsOf, variantsOf, List.flatMap_map, List.map_flatMap]
  exact List.flatMap_congr hone

theorem ofVariants_map (outputs : Outputs) {vs : List (ModuleDecl × Arch)}
    (h : ∀ v ∈ vs, PlannedAlike facts facts' outDir v.1 (f v.1)) :
    ofVariants facts' outDir outputs (vs.map fun v => (f v.1, v.2)) =
      ofVariants facts outDir outputs vs := by
  induction vs with
  | nil => rfl
  | cons v vs ih =>
    obtain ⟨m, arch⟩ := v
    have hm : PlannedAlike facts facts' outDir m (f m) := h (m, arch) List.mem_cons_self
    have hrest := ih fun v hv => h v (List.mem_cons_of_mem _ hv)
    have hvariant : (f m).variant arch = m.variant arch := by
      rw [ModuleDecl.variant, hm.name, ModuleDecl.variant]
    rw [List.map_cons, ofVariants, ofVariants, hm.plan, hrest, hvariant]

/-- Planning modules in waves, and planning those that stand in for them. -/
theorem ofWaves_map {waves : List (List ModuleDecl)}
    (h : ∀ m ∈ waves.flatten, PlannedAlike facts facts' outDir m (f m)) (p : Plan) :
    ofWaves facts' outDir p (waves.map (List.map f)) = ofWaves facts outDir p waves := by
  induction waves generalizing p with
  | nil => rfl
  | cons wave rest ih =>
    rw [List.flatten_cons, List.forall_mem_append] at h
    have hvariants : ofVariants facts' outDir p.outputs (variantsOf (wave.map f)) =
        ofVariants facts outDir p.outputs (variantsOf wave) := by
      rw [variantsOf_map fun m hm => (h.1 m hm).archs]
      exact ofVariants_map p.outputs fun v hv => h.1 v.1 (mem_variantsOf.mp hv).1
    simp only [List.map_cons, ofWaves, hvariants, ih h.2]

end Pass

end HybridBuild
