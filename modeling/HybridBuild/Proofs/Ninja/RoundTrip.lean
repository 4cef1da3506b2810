import HybridBuild.Proofs.Ninja.Lines
import HybridBuild.Proofs.Ninja.Order
import Mathlib.Data.List.Permutation

/-!
# A manifest that is rendered is read

A manifest is rendered rule by rule: an empty line, the declaration of the rule with its
bindings unless it is phony, and its edge. Every rule whose texts fit into lines comes back
from the manifest as it was registered, in the order of the rules, and nothing else does.
-/
namespace HybridBuild.Ninja

/-- A rule whose texts fit into lines: its paths can be written, none of its values starts
with a space, and unless it is phony it is declared under a name that can be declared. -/
structure FitsLines (r : Rule) : Prop where
  paths : ∀ path ∈ r.allOutputs ++ r.allInputs, IsPath path
  values : r.isPhony = false → ∀ value ∈ r.command :: r.description :: r.depfile.toList,
    IsValue value
  name : r.isPhony = false → r.id ≠ "" ∧ r.id ≠ groupRule

/-- What a rule binds in its declaration. -/
def boundBy (r : Rule) : List (String × String) :=
  ("command", r.command) ::
  ((if r.description.isEmpty then [] else [("description", r.description)]) ++
  ((match r.depfile with
    | some depfile => [("depfile", depfile), ("deps", "gcc")]
    | none => []) ++
  if r.restat then [("restat", "true")] else []))

def edgeOf (r : Rule) : Edge where
  rule := if r.isPhony then none else some r.id
  outputs := r.outputs
  implicitOutputs := r.implicitOutputs
  inputs := r.inputs
  implicitInputs := r.implicitInputs

/-- What the paragraph of a rule declares. -/
def declarations (r : Rule) : List Declaration :=
  if r.isPhony then [.edge (edgeOf r)] else [.rule r.id (boundBy r), .edge (edgeOf r)]

def headDeclarations : List Declaration := [.binding "ninja_required_version" "1.7.1"]

def linesOf (r : Rule) : List Line :=
  .blank :: ((if r.isPhony then []
    else .rule r.id :: (boundBy r).map fun (key, value) => .indented key value) ++
  [.edge (edgeOf r)])

def headLines : List Line :=
  [.comment (" Generated by " ++ toolName ++ ". Do not edit."),
    .binding "ninja_required_version" "1.7.1"]

/-- Lines as they are written, each followed by a line feed. -/
def textOfLines (lines : List Line) : List Char := lines.flatMap fun line => line.text ++ ['\n']

theorem textOfLines_append (lines lines' : List Line) :
    textOfLines (lines ++ lines') = textOfLines lines ++ textOfLines lines' :=
  List.flatMap_append

theorem toList_header : header.toList = textOfLines headLines := by decide +kernel

theorem toList_binding (key value : String) :
    (binding key value).toList = (Line.indented key value).text ++ ['\n'] := by
  simp [binding, Line.text, bindingText, escapeValue]

theorem toList_bindings (r : Rule) : (bindings r).toList =
    textOfLines ((boundBy r).map fun (key, value) => .indented key value) := by
  rw [textOfLines, List.flatMap_map]
  simp only [← toList_binding]
  unfold bindings boundBy
  cases r.description.isEmpty <;> cases r.depfile <;> cases r.restat <;> simp

theorem toList_buildLine (r : Rule) :
    (buildLine (edgeOf r).ruleName r).toList = (Line.edge (edgeOf r)).text ++ ['\n'] := by
  simp [buildLine, Line.text, wordLine, Edge.text, edgeOf, pathLists, toList_pathGroup,
    toList_pathGroup_bar]

theorem toList_paragraph (r : Rule) : (paragraph r).toList = textOfLines (linesOf r) := by
  have hedge := toList_buildLine r
  unfold paragraph linesOf
  cases hphony : r.isPhony with
  | true =>
    have hname : (edgeOf r).ruleName = "phony" := by simp [Edge.ruleName, edgeOf, hphony, groupRule]
    rw [hname] at hedge
    simp [textOfLines, hedge, Line.text]
  | false =>
    have hname : (edgeOf r).ruleName = r.id := by simp [Edge.ruleName, edgeOf, hphony]
    rw [hname] at hedge
    simp [toList_bindings, hedge, textOfLines, Line.text, wordLine]

theorem toList_manifest (order : List Rule) :
    (header ++ String.join (order.map paragraph)).toList =
      textOfLines (headLines ++ order.flatMap linesOf) := by
  have hparagraphs : (order.map paragraph).flatMap String.toList =
      textOfLines (order.flatMap linesOf) := by
    simp [textOfLines, List.flatMap_map, List.flatMap_assoc, toList_paragraph]
  rw [String.toList_append, String.toList_join, toList_header, hparagraphs, ← textOfLines_append]

theorem splitOn_textOfLines {lines : List Line} (h : ∀ line ∈ lines, IsPlain line.text) :
    (textOfLines lines).splitOn '\n' = lines.map Line.text ++ [[]] := by
  induction lines with
  | nil => rfl
  | cons line rest ih =>
    obtain ⟨hline, hrest⟩ := List.forall_mem_cons.mp h
    have hfeed : '\n' ∉ line.text := fun hmem => (hline _ hmem).1 rfl
    have htext : textOfLines (line :: rest) = line.text ++ '\n' :: textOfLines rest := by
      simp [textOfLines]
    rw [htext, List.splitOn_append_cons_self_of_not_mem hfeed, ih hrest]
    rfl

theorem mapM_readLine? {lines : List Line} (h : ∀ line ∈ lines, line.IsReadable) :
    (lines.map Line.text).mapM readLine? = some lines := by
  induction lines with
  | nil => rfl
  | cons line rest ih =>
    obtain ⟨hline, hrest⟩ := List.forall_mem_cons.mp h
    rw [List.map_cons, List.mapM_cons, readLine?_text hline, ih hrest]
    rfl

/-- A text of lines that can be written declares what its lines declare. -/
theorem read?_textOfLines {text : String} {lines : List Line} (htext : text.toList = textOfLines lines)
    (h : ∀ line ∈ lines, line.IsReadable) {declared : List Declaration}
    (hdeclare : declare? lines = some ([], declared)) : read? text = some declared := by
  have hplain : ∀ line ∈ lines, IsPlain line.text := fun line hline => (h line hline).isPlain
  have hforeign : (textOfLines lines).any isForeign = false := by
    rw [List.any_eq_false]
    intro c hc
    obtain ⟨line, hline, hmem⟩ := List.mem_flatMap.mp hc
    rcases List.mem_append.mp hmem with hmem | hmem
    · exact (hplain line hline c hmem).2
    · rw [List.mem_singleton.mp hmem]
      decide
  unfold read?
  rw [htext, splitOn_textOfLines hplain, hforeign]
  simp [mapM_readLine? h, hdeclare]

/-- Indented lines bind for the declaration above them. -/
theorem declare?_indented {lines : List Line} {declared : List Declaration}
    (h : declare? lines = some ([], declared)) (bound : List (String × String)) :
    declare? ((bound.map fun (key, value) => .indented key value) ++ lines) =
      some (bound, declared) := by
  induction bound with
  | nil => exact h
  | cons pair rest ih =>
    rw [List.map_cons, List.cons_append, declare?, ih]

/-- One paragraph declares what its rule says. -/
theorem declare?_linesOf (r : Rule) {lines : List Line} {declared : List Declaration}
    (h : declare? lines = some ([], declared)) :
    declare? (linesOf r ++ lines) = some ([], declarations r ++ declared) := by
  have hedge : declare? (.edge (edgeOf r) :: lines) = some ([], .edge (edgeOf r) :: declared) := by
    simp [declare?, h]
  unfold linesOf declarations
  cases r.isPhony with
  | true => simp [declare?, h]
  | false => simp [declare?, declare?_indented hedge]

/-- All paragraphs declare what their rules say, by induction on the rules. -/
theorem declare?_manifest (order : List Rule) :
    declare? (headLines ++ order.flatMap linesOf) =
      some ([], headDeclarations ++ order.flatMap declarations) := by
  have hparagraphs : declare? (order.flatMap linesOf) = some ([], order.flatMap declarations) := by
    induction order with
    | nil => rfl
    | cons r rest ih =>
      rw [List.flatMap_cons, List.flatMap_cons]
      exact declare?_linesOf r ih
  simp [headLines, headDeclarations, declare?, hparagraphs]

theorem isReadable_headLines : ∀ line ∈ headLines, line.IsReadable := by
  have hcomment : IsPlain (" Generated by " ++ toolName ++ ". Do not edit.").toList := by
    decide +kernel
  have hkey : IsName "ninja_required_version" := by decide
  have hvalue : IsValue "1.7.1" := by decide
  simp only [headLines, List.forall_mem_cons, Line.IsReadable]
  exact ⟨hcomment, ⟨⟨hkey, by decide⟩, hvalue⟩, List.forall_mem_nil _⟩

theorem isName_id {r : Rule} (h : r.id ≠ "") : IsName r.id := by
  refine ⟨h, fun c hc => ?_⟩
  rw [Rule.id, Rule.idOf, String.toList_ofList] at hc
  obtain ⟨d, -, rfl⟩ := List.mem_map.mp hc
  split
  next hd => rw [isNameChar, hd, Bool.true_or, Bool.true_or]
  · rfl

theorem isReadable_boundBy {r : Rule}
    (h : ∀ value ∈ r.command :: r.description :: r.depfile.toList, IsValue value) :
    ∀ pair ∈ boundBy r, IsName pair.1 ∧ IsValue pair.2 := by
  simp only [List.forall_mem_cons] at h
  obtain ⟨hcommand, hdescription, hdepfile⟩ := h
  have hcommandKey : IsName "command" := by decide
  have hdescriptionKey : IsName "description" := by decide
  have hdepfileKey : IsName "depfile" := by decide
  simp only [boundBy, List.forall_mem_cons, List.forall_mem_append]
  refine ⟨⟨hcommandKey, hcommand⟩, ?_, ?_, ?_⟩
  · split
    · exact List.forall_mem_nil _
    · exact List.forall_mem_singleton.mpr ⟨hdescriptionKey, hdescription⟩
  · cases hdep : r.depfile with
    | none => exact List.forall_mem_nil _
    | some depfile =>
      have hvalue : IsValue depfile := hdepfile depfile (by simp [hdep])
      simp only [List.forall_mem_cons]
      exact ⟨⟨hdepfileKey, hvalue⟩, ⟨by decide, by decide⟩,
        List.forall_mem_nil _⟩
  · split
    · exact List.forall_mem_singleton.mpr ⟨by decide, by decide⟩
    · exact List.forall_mem_nil _

theorem FitsLines.isReadable_edgeOf {r : Rule} (h : FitsLines r) (houtputs : r.allOutputs ≠ []) :
    (edgeOf r).IsReadable := by
  have hpaths := h.paths
  simp only [Rule.allOutputs, Rule.allInputs, List.forall_mem_append] at hpaths
  obtain ⟨⟨hout, himplicitOut⟩, hin, himplicitIn⟩ := hpaths
  refine ⟨?_, houtputs, hout, himplicitOut, hin, himplicitIn⟩
  intro name hname
  cases hphony : r.isPhony with
  | true => simp [edgeOf, hphony] at hname
  | false =>
    obtain rfl : r.id = name := by simpa [edgeOf, hphony] using hname
    obtain ⟨hempty, hne⟩ := h.name hphony
    exact ⟨isName_id hempty, hne⟩

theorem FitsLines.isReadable_linesOf {r : Rule} (h : FitsLines r) (houtputs : r.allOutputs ≠ []) :
    ∀ line ∈ linesOf r, line.IsReadable := by
  have hedge : (Line.edge (edgeOf r)).IsReadable := h.isReadable_edgeOf houtputs
  unfold linesOf
  refine List.forall_mem_cons.mpr ⟨trivial, List.forall_mem_append.mpr
    ⟨?_, List.forall_mem_singleton.mpr hedge⟩⟩
  cases hphony : r.isPhony with
  | true => exact List.forall_mem_nil _
  | false =>
    obtain ⟨hempty, hne⟩ := h.name hphony
    refine List.forall_mem_cons.mpr ⟨⟨isName_id hempty, hne⟩, fun line hline => ?_⟩
    obtain ⟨pair, hpair, rfl⟩ := List.mem_map.mp hline
    exact isReadable_boundBy (h.values hphony) pair hpair

/-- A manifest of rules that have outputs and fit into lines is read as it was written. -/
theorem read?_manifest {order : List Rule} (houtputs : ∀ r ∈ order, r.allOutputs ≠ [])
    (hfits : ∀ r ∈ order, FitsLines r) :
    read? (header ++ String.join (order.map paragraph)) =
      some (headDeclarations ++ order.flatMap declarations) := by
  refine read?_textOfLines (toList_manifest order) ?_ (declare?_manifest order)
  refine List.forall_mem_append.mpr ⟨isReadable_headLines, fun line hline => ?_⟩
  obtain ⟨r, hr, hmem⟩ := List.mem_flatMap.mp hline
  exact (hfits r hr).isReadable_linesOf (houtputs r hr) line hmem

/-- However an acyclic graph was built by offering rules to it: if its rules fit into lines,
its manifest is read as one declaration with its bindings and one edge for each rule, or as an
edge only for each phony rule, in the order of the rules. -/
theorem read?_render (offered : List Rule) (hacyclic : ∀ r,
      ¬ Relation.TransGen (ActionGraph.empty.offer offered).Feeds r r)
    (hfits : ∀ r ∈ (ActionGraph.empty.offer offered).rules, FitsLines r) :
    ∃ order text, (ActionGraph.empty.offer offered).ordered = .ok order ∧
      render (ActionGraph.empty.offer offered) = .ok text ∧
      read? text = some (headDeclarations ++ order.flatMap declarations) := by
  have hreg : ActionGraph.Registered (ActionGraph.empty.offer offered).rules :=
    ActionGraph.registered_offer .nil offered
  obtain ⟨order, horder⟩ := (ActionGraph.exists_ordered_iff_acyclic hreg).mpr hacyclic
  refine ⟨order, header ++ String.join (order.map paragraph), horder, by rw [render, horder]; rfl, ?_⟩
  have hmem : ∀ r ∈ order, r ∈ (ActionGraph.empty.offer offered).rules := fun r hr =>
    (ActionGraph.ordered_perm horder).mem_iff.mp hr
  have hown := ActionGraph.nodup_outputs_of_mem_offer (g := .empty) (by simp [ActionGraph.empty])
    offered
  exact read?_manifest (fun r hr => (hown r (hmem r hr)).1) fun r hr => hfits r (hmem r hr)

/-- A step whose texts need escaping, and a group of what it makes. -/
def oddRules : List Rule :=
  [{ name := "//a:b c", description := "100 $", command := "cp $in 'a: b'",
     outputs := ["out/a b", "out/$"], implicitOutputs := ["c:/log"], inputs := ["in 1"],
     depfile := some "out/a b.d", restat := true },
   .phony "all" ["all"] ["out/a b", "out/$"]]

theorem offer_oddRules : ActionGraph.empty.offer oddRules = ⟨oddRules, ∅⟩ := rfl

theorem fitsLines_oddRules : ∀ r ∈ oddRules, FitsLines r := by
  have hpaths : ∀ r ∈ oddRules, ∀ path ∈ r.allOutputs ++ r.allInputs, IsPath path := by
    decide +kernel
  have hvalues : ∀ r ∈ oddRules, r.isPhony = false →
      ∀ value ∈ r.command :: r.description :: r.depfile.toList, IsValue value := by
    decide +kernel
  have hname : ∀ r ∈ oddRules, r.isPhony = false → r.id ≠ "" ∧ r.id ≠ groupRule := by
    decide +kernel
  exact fun r hr => ⟨hpaths r hr, hvalues r hr, hname r hr⟩

/-- Both rules come back whole, the group after what it groups. -/
theorem read?_render_oddRules :
    ∃ text, render (ActionGraph.empty.offer oddRules) = .ok text ∧
      read? text = some (headDeclarations ++ oddRules.flatMap declarations) := by
  have hreg : ActionGraph.Registered (ActionGraph.empty.offer oddRules).rules :=
    ActionGraph.registered_offer .nil oddRules
  have hordered : (ActionGraph.empty.offer oddRules).ordered = .ok oddRules := by
    rw [offer_oddRules]
    cbv
  have hacyclic := (ActionGraph.exists_ordered_iff_acyclic hreg).mp ⟨oddRules, hordered⟩
  obtain ⟨order, text, horder, hrender, hread⟩ := read?_render oddRules hacyclic (by
    rw [offer_oddRules]
    exact fitsLines_oddRules)
  have heq : oddRules = order := Except.ok.inj (hordered.symm.trans horder)
  exact ⟨text, hrender, heq ▸ hread⟩

end HybridBuild.Ninja
