import HybridBuild.Proofs.Variant.Alike
import HybridBuild.Proofs.Variant.Recursion

/-!
# Where facts have no say

What is known about Bazel's targets shows only in delegated variants and in what depends on
them. A module that is not delegated, and depends on no delegated module in any number of
steps, has the same outputs and the same rules in every plan, whether facts may be used or
not and whatever they are. The rules of a variant are those that bear its name, which no
other variant has.
-/
namespace HybridBuild

theorem Arch.label_injective {a b : Arch} (h : a.label = b.label) : a = b := by
  cases a <;> cases b <;> first | rfl | exact absurd h (by decide)

theorem Arch.dot_notMem_label (a : Arch) : '.' ∉ a.label.toList := by
  cases a <;> decide

/-- Two texts that are cut where a character stands last are equal only if both parts are. -/
theorem eq_of_append_mark {mark : Char} {a b c d : List Char} (hb : mark ∉ b) (hd : mark ∉ d)
    (h : a ++ mark :: b = c ++ mark :: d) : a = c ∧ b = d := by
  rcases List.append_eq_append_iff.mp h with ⟨x, hc, hx⟩ | ⟨x, ha, hx⟩
  · cases x with
    | nil => simp_all
    | cons y x =>
      have hmem : mark ∈ b := by simp_all
      exact absurd hmem hb
  · cases x with
    | nil => simp_all
    | cons y x =>
      have hmem : mark ∈ d := by simp_all
      exact absurd hmem hd

theorem Variant.ruleName_injective {v w : Variant} (h : v.ruleName = w.ruleName) : v = w := by
  obtain ⟨m, a⟩ := v
  obtain ⟨n, b⟩ := w
  have hlist : m.toList ++ '.' :: a.label.toList = n.toList ++ '.' :: b.label.toList := by
    simpa [Variant.ruleName] using congrArg String.toList h
  obtain ⟨hm, ha⟩ := eq_of_append_mark a.dot_notMem_label b.dot_notMem_label hlist
  have hmodule : m = n := String.ext hm
  have harch : a = b := Arch.label_injective (String.ext ha)
  rw [hmodule, harch]

def Plan.rulesOf (p : Plan) (v : Variant) : List Rule :=
  p.rules.filter fun rule => rule.name = v.ruleName

namespace ModuleDecl

/-- A module is not delegated, and depends on no delegated module. -/
def IsNative (modules : List ModuleDecl) (m : ModuleDecl) : Prop :=
  m.delegate? = none ∧ ∀ d, Relation.TransGen (Depends modules) d m → d.delegate? = none

theorem IsNative.dep {modules : List ModuleDecl} {m d : ModuleDecl} (h : m.IsNative modules)
    (hd : Depends modules d m) : d.IsNative modules :=
  ⟨h.2 d (.single hd), fun e he => h.2 e (he.tail hd)⟩

variable {m : ModuleDecl} {facts facts' : Facts} {outDir : Path} {arch : Arch} {outputs : Outputs}
  {c : Contribution}

/-- What a module is planned to be when it is not delegated does not depend on the facts. -/
theorem planVariant_of_delegate?_eq_none (h : m.delegate? = none) (facts : Facts) :
    m.planVariant facts outDir outputs arch = ([], m.planNative outDir outputs arch) := by
  simp [planVariant, h]

/-- A module that is not delegated is planned alike against outputs that agree on its
dependencies. -/
theorem planVariant_eq_of_agreeOn {outputs' : Outputs} (h : m.delegate? = none)
    (hagree : AgreeOn m.deps outputs outputs') :
    m.planVariant facts outDir outputs arch = m.planVariant facts' outDir outputs' arch := by
  rw [planVariant_congr hagree, planVariant_of_delegate?_eq_none h,
    planVariant_of_delegate?_eq_none h]

theorem name_of_mem_rules (h : (m.planVariant facts outDir outputs arch).2 = .ok c) {rule : Rule}
    (hrule : rule ∈ c.rules) : rule.name = (m.variant arch).ruleName := by
  cases hd : m.delegatedTo? facts with
  | some label =>
    rw [planVariant_of_delegated hd] at h
    rcases of_planDelegated_eq_ok h with ⟨-, rfl⟩ | ⟨-, rfl⟩ | ⟨files, -, rfl⟩
    · exact absurd hrule List.not_mem_nil
    · exact absurd hrule List.not_mem_nil
    · rw [List.mem_singleton.mp hrule]
      rfl
  | none =>
    rw [planVariant_of_native hd] at h
    obtain ⟨inputs, -, ⟨-, rfl⟩ | ⟨-, copy, hname, -, -, rfl⟩⟩ := of_planNative_eq_ok h
    · exact absurd hrule List.not_mem_nil
    · rw [List.mem_singleton.mp hrule, hname]

end ModuleDecl

open ModuleDecl

namespace Pass

variable {facts facts' : Facts} {outDir : Path} {outputs outputs' : Outputs}
  {modules : List ModuleDecl} {g : ModuleGraph} {p p' : Plan}

/-- Which rules bear the name of a variant depends only on how that variant is planned. -/
theorem filter_rules_congr {vs : List (ModuleDecl × Arch)} {v : Variant}
    {cs cs' : List (Variant × Contribution)}
    (hcs : vs.mapM (contribution facts outDir outputs) = .ok cs)
    (hcs' : vs.mapM (contribution facts' outDir outputs') = .ok cs')
    (hsame : ∀ w ∈ vs, w.1.variant w.2 = v →
      contribution facts outDir outputs w = contribution facts' outDir outputs' w) :
    (cs.flatMap (·.2.rules)).filter (fun rule => rule.name = v.ruleName) =
      (cs'.flatMap (·.2.rules)).filter fun rule => rule.name = v.ruleName := by
  induction vs generalizing cs cs' with
  | nil =>
    have hnil : [] = cs := Except.ok.inj hcs
    have hnil' : [] = cs' := Except.ok.inj hcs'
    rw [← hnil, ← hnil']
  | cons w vs ih =>
    obtain ⟨c, hc⟩ := exists_mapM_ok_iff.mp ⟨cs, hcs⟩ w List.mem_cons_self
    obtain ⟨c', hc'⟩ := exists_mapM_ok_iff.mp ⟨cs', hcs'⟩ w List.mem_cons_self
    rw [mapM_cons_ok hc, except_map_eq_ok_iff] at hcs
    rw [mapM_cons_ok hc', except_map_eq_ok_iff] at hcs'
    obtain ⟨rest, hrest, rfl⟩ := hcs
    obtain ⟨rest', hrest', rfl⟩ := hcs'
    have htail := ih hrest hrest' fun w hw => hsame w (List.mem_cons_of_mem _ hw)
    have hnames {facts : Facts} {outputs : Outputs} {c : Variant × Contribution}
        (hc : contribution facts outDir outputs w = .ok c) :
        ∀ rule ∈ c.2.rules, rule.name = (w.1.variant w.2).ruleName := fun rule hrule =>
      name_of_mem_rules (contribution_eq_ok_iff.mp hc).2 hrule
    rw [List.flatMap_cons, List.flatMap_cons, List.filter_append, List.filter_append, htail]
    by_cases hv : w.1.variant w.2 = v
    · have heq : c = c' := by
        have h := hsame w List.mem_cons_self hv
        rw [hc, hc'] at h
        exact Except.ok.inj h
      rw [heq]
    · have hnone {c : Variant × Contribution}
          (h : ∀ rule ∈ c.2.rules, rule.name = (w.1.variant w.2).ruleName) :
          c.2.rules.filter (fun rule => rule.name = v.ruleName) = [] := by
        refine List.filter_eq_nil_iff.mpr fun rule hrule => ?_
        rw [h rule hrule, decide_eq_true_eq]
        exact fun hname => hv (Variant.ruleName_injective hname)
      rw [hnone (hnames hc), hnone (hnames hc')]

theorem agreeOn_of_deps {m : ModuleDecl} (hm : m ∈ g.modules)
    (hdeps : ∀ d ∈ g.modules, d.name ∈ m.deps → ∀ arch,
      outputs[d.variant arch]? = outputs'[d.variant arch]?) :
    AgreeOn m.deps outputs outputs' := by
  intro name hname arch
  obtain ⟨d, hd, rfl⟩ := g.accepted.deps m hm name hname
  exact hdeps d hd hname arch

section Solutions

variable (h : Solves facts outDir g.waves.flatten p) (h' : Solves facts' outDir g.waves.flatten p')
include h h'

/-- In any two solutions native modules have the same outputs: by induction over their
dependencies, which are native as well. -/
theorem getElem?_of_isNative : ∀ m ∈ g.modules, m.IsNative g.modules → ∀ arch,
    p.outputs[m.variant arch]? = p'.outputs[m.variant arch]? := by
  refine g.forall_of_deps fun m hm ih hnative arch => ?_
  have hm' : m ∈ g.waves.flatten := ModuleGraph.mem_flatten_waves.mpr hm
  have hagree : AgreeOn m.deps p.outputs p'.outputs := agreeOn_of_deps hm
    fun d hd hdep => ih d hd hdep (hnative.dep ⟨hd, hm, hdep⟩)
  by_cases harch : arch ∈ m.archs
  · obtain ⟨c, hc, hout⟩ := h.exists_planVariant hm' harch
    obtain ⟨c', hc', hout'⟩ := h'.exists_planVariant hm' harch
    rw [planVariant_eq_of_agreeOn hnative.1 hagree, hc'] at hc
    rw [hout, hout', Except.ok.inj hc]
  · have hnone : m.variant arch ∉ p.outputs := mt (h.variant_mem_outputs_iff hm').mp harch
    have hnone' : m.variant arch ∉ p'.outputs := mt (h'.variant_mem_outputs_iff hm').mp harch
    rw [Std.TreeMap.getElem?_eq_none hnone, Std.TreeMap.getElem?_eq_none hnone']

/-- In any two solutions native modules have the same rules. -/
theorem rulesOf_of_isNative {m : ModuleDecl} (hm : m ∈ g.modules)
    (hnative : m.IsNative g.modules) (arch : Arch) :
    p.rulesOf (m.variant arch) = p'.rulesOf (m.variant arch) := by
  obtain ⟨cs, hcs, hrules⟩ := h.exists_contributions
  obtain ⟨cs', hcs', hrules'⟩ := h'.exists_contributions
  have hagree : AgreeOn m.deps p.outputs p'.outputs := agreeOn_of_deps hm
    fun d hd hdep => getElem?_of_isNative h h' d hd (hnative.dep ⟨hd, hm, hdep⟩)
  rw [Plan.rulesOf, Plan.rulesOf, hrules, hrules']
  refine filter_rules_congr hcs hcs' fun w hw hv => ?_
  have hmem : w.1 ∈ g.modules := ModuleGraph.mem_flatten_waves.mp (mem_variantsOf.mp hw).1
  have hname : w.1.name = m.name := congrArg Variant.module hv
  have heq : w.1 = m := eq_of_name_eq g.accepted.names hmem hm hname
  rw [contribution, contribution, heq, planVariant_eq_of_agreeOn hnative.1 hagree]

end Solutions

/-- Without delegated modules, a pass does not depend on the facts at all, and asks for none. -/
theorem ofGraph_of_native (hnative : ∀ m ∈ g.modules, m.delegate? = none) (facts facts' : Facts)
    (outDir : Path) : ofGraph facts outDir g = ofGraph facts' outDir g := by
  have halike : ∀ m ∈ g.waves.flatten, PlannedAlike facts facts' outDir m (id m) := by
    intro m hm
    have hm' := hnative m (ModuleGraph.mem_flatten_waves.mp hm)
    refine ⟨rfl, rfl, fun outputs arch => ?_⟩
    rw [id, planVariant_of_delegate?_eq_none hm', planVariant_of_delegate?_eq_none hm']
  have hmap := ofWaves_map halike .empty
  simpa [ofGraph] using hmap.symm

end Pass

end HybridBuild
