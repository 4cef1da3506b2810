import HybridBuild.Path
import Mathlib.Data.List.Basic

/-!
# Joined paths

Two texts are one path when both start at the root, or neither does, and they have the same
names in order. Separators that are repeated make no difference, so a path that is joined to
another one has the names of both, however their texts meet. A name of an entry that is joined
to a directory can be taken off again.
-/
namespace HybridBuild

/-- A name of an entry, and not of a directory that is already known. -/
def IsEntryName (name : String) : Prop := name ∉ ["", ".", ".."] ∧ '/' ∉ name.toList

instance (name : String) : Decidable (IsEntryName name) := inferInstanceAs (Decidable (_ ∧ _))

namespace Path

/-- A path that does not end in a separator. -/
def EndsInName (p : Path) : Prop := ∃ c ≠ '/', p.text.toList.getLast? = some c

/-- The names among some pieces; `first` says whether the list starts at the first piece of the
path. -/
def namedPieces (first : Bool) : List (List Char) → List (List Char)
  | [] => []
  | piece :: rest =>
    if isFiller first piece then namedPieces false rest else piece :: namedPieces false rest

/-- Where a path starts, and its names. -/
structure Components where
  atRoot : Bool
  names : List (List Char)
  deriving DecidableEq, Repr

def components (p : Path) : Components := ⟨p.isAbsolute, namedPieces true p.pieces⟩

example : (Path.mk "/a//./b/").components = (Path.mk "//a/b").components := by decide

variable {p base : Path} {above part name : String} {piece : List Char} {pieces : List (List Char)}

theorem isAbsolute_of_isEntryName (h : IsEntryName name) : (Path.mk name).isAbsolute = false := by
  have hhead : name.toList.head? ≠ some '/' := fun hslash => h.2 (List.mem_of_head? hslash)
  simpa [isAbsolute] using hhead

theorem text_join (hbase : base.EndsInName) (hname : IsEntryName name) :
    (base.join name).text = base.text ++ "/" ++ name := by
  obtain ⟨c, hc, hlast⟩ := hbase
  have hne : base.text.isEmpty = false := by
    cases hempty : base.text.isEmpty with
    | false => rfl
    | true => simp [String.isEmpty_iff.mp hempty] at hlast
  have hslash : base.text.toList.getLast? ≠ some '/' := by simpa [hlast] using hc
  simp [join, isAbsolute_of_isEntryName hname, hne, hslash]

theorem join_of_whole (h : (Path.mk part).isAbsolute = true ∨ base.text = "") :
    base.join part = ⟨part⟩ := by
  rw [join, if_pos (by simpa using h)]

/-- What a path is extended by stands at its end. -/
theorem exists_text_join (base : Path) (part : String) :
    ∃ above, (base.join part).text = above ++ part := by
  unfold join
  split_ifs
  · exact ⟨"", by simp⟩
  · exact ⟨_, rfl⟩
  · exact ⟨_, rfl⟩

theorem namedPieces_append (h : pieces ≠ []) (first : Bool) (more : List (List Char)) :
    namedPieces first (pieces ++ more) = namedPieces first pieces ++ namedPieces false more := by
  induction pieces generalizing first with
  | nil => exact absurd rfl h
  | cons piece rest ih =>
    have hrest : namedPieces false (rest ++ more) =
        namedPieces false rest ++ namedPieces false more := by
      cases rest with
      | nil => rfl
      | cons _ _ => exact ih (List.cons_ne_nil _ _) false
    rw [List.cons_append, namedPieces, namedPieces, hrest]
    split <;> rfl

theorem pieces_ne_nil (p : Path) : p.pieces ≠ [] := List.splitOn_ne_nil _ _

theorem pieces_separator (above part : String) :
    (Path.mk (above ++ "/" ++ part)).pieces = (Path.mk above).pieces ++ (Path.mk part).pieces := by
  have htext : (above ++ "/" ++ part).toList = above.toList ++ '/' :: part.toList := by simp
  rw [Path.pieces, htext, List.splitOn_append_cons_self]
  rfl

theorem isAbsolute_separator (above part : String) : (Path.mk (above ++ "/" ++ part)).isAbsolute =
    (above = "" || (Path.mk above).isAbsolute) := by
  have htext : (above ++ "/" ++ part).toList = above.toList ++ '/' :: part.toList := by simp
  rw [isAbsolute, isAbsolute, htext]
  rcases eq_or_ne above "" with rfl | hne
  · simp
  · have hlist : above.toList ≠ [] := String.toList_eq_nil_iff.not.mpr hne
    obtain ⟨c, rest, habove⟩ := List.exists_cons_of_ne_nil hlist
    simp [habove, hne]

/-- Of two texts with a separator between them, the names of the first are followed by those of
the second. -/
theorem components_separator (above part : String) :
    (Path.mk (above ++ "/" ++ part)).components =
      ⟨above = "" || (Path.mk above).isAbsolute,
        (Path.mk above).components.names ++ namedPieces false (Path.mk part).pieces⟩ := by
  rw [components, isAbsolute_separator, pieces_separator,
    namedPieces_append (pieces_ne_nil _)]
  rfl

/-- A path is joined by leaving it as it is, or by putting one separator between two texts. -/
theorem join_cases (base : Path) (part : String) :
    (((Path.mk part).isAbsolute = true ∨ base.text = "") ∧ base.join part = ⟨part⟩) ∨
      (Path.mk part).isAbsolute = false ∧ base.text ≠ "" ∧ ∃ above,
        (base.text = above ∨ base.text = above ++ "/") ∧
          base.join part = ⟨above ++ "/" ++ part⟩ := by
  unfold join
  split_ifs with hwhole hslash
  · left
    simpa using hwhole
  · right
    obtain ⟨above, habove⟩ := List.getLast?_eq_some_iff.mp hslash
    have htext : base.text = String.ofList above ++ "/" := by
      rw [← String.ofList_toList (s := base.text), habove]
      simp
    have hsplit : (Path.mk part).isAbsolute = false ∧ base.text ≠ "" := by simpa using hwhole
    exact ⟨hsplit.1, hsplit.2, _, .inr htext, by rw [htext]⟩
  · right
    have hsplit : (Path.mk part).isAbsolute = false ∧ base.text ≠ "" := by simpa using hwhole
    exact ⟨hsplit.1, hsplit.2, _, .inl rfl, rfl⟩

/-- The pieces of what is joined to a path are the last ones. -/
theorem exists_pieces_join (base : Path) (part : String) :
    ∃ before, (base.join part).pieces = before ++ (Path.mk part).pieces := by
  obtain ⟨-, hjoin⟩ | ⟨-, -, above, -, hjoin⟩ := join_cases base part
  · exact ⟨[], congrArg Path.pieces hjoin⟩
  · exact ⟨_, hjoin ▸ pieces_separator above part⟩

/-- At most a separator comes between the texts of a path and of what is joined to it. -/
theorem exists_separator_of_join (base : Path) (h : (Path.mk part).isAbsolute = false) :
    ∃ separator ∈ ["", "/"], (base.join part).text = base.text ++ separator ++ part := by
  obtain ⟨hwhole, hjoin⟩ | ⟨-, -, above, habove, hjoin⟩ := join_cases base part
  · have hempty : base.text = "" := by simpa [h] using hwhole
    exact ⟨"", by simp, by simp [hjoin, hempty]⟩
  · rcases habove with rfl | htext
    · exact ⟨"/", by simp, by rw [hjoin]⟩
    · exact ⟨"", by simp, by simp [hjoin, htext]⟩

/-- What is joined to a path has its names behind those of the path, unless it is absolute. A
separator at the end of the path has no name behind it. -/
theorem components_join (hpart : (Path.mk part).isAbsolute = false) (hbase : base.text ≠ "") :
    (base.join part).components =
      ⟨base.isAbsolute, base.components.names ++ namedPieces false (Path.mk part).pieces⟩ := by
  obtain ⟨hwhole, -⟩ | ⟨-, -, above, hbase', hjoin⟩ := join_cases base part
  · simp [hpart, hbase] at hwhole
  · rw [hjoin, components_separator]
    rcases hbase' with rfl | htext
    · simp [hbase]
    · have hcomponents := components_separator above ""
      rw [String.append_empty, ← htext] at hcomponents
      have hnames : base.components.names = (Path.mk above).components.names :=
        (congrArg Components.names hcomponents).trans (List.append_nil _)
      have hroot : base.isAbsolute = (decide (above = "") || (Path.mk above).isAbsolute) :=
        congrArg Components.atRoot hcomponents
      rw [hnames, hroot]

/-- An absolute path has its first name behind a separator. -/
theorem components_of_isAbsolute (h : p.isAbsolute = true) :
    p.components = ⟨true, namedPieces false p.pieces⟩ := by
  obtain ⟨rest, htext⟩ := List.head?_eq_some_iff.mp (of_decide_eq_true h)
  have hpieces : p.pieces = [] :: rest.splitOn '/' := by
    rw [pieces, htext]
    exact List.splitOn_append_cons_self [] rest
  rw [components, h, hpieces]
  rfl

/-- A path without names is empty or the root: a first piece is a name even when it is a dot. -/
theorem isAbsolute_of_names_eq_nil (h : p.components.names = []) (hne : p.text ≠ "") :
    p.isAbsolute = true := by
  by_contra habsolute
  obtain ⟨c, rest, htext⟩ := List.exists_cons_of_ne_nil (String.toList_eq_nil_iff.not.mpr hne)
  have hc : c ≠ '/' := by simpa [isAbsolute, htext] using habsolute
  obtain ⟨piece, more, hrest⟩ := List.exists_cons_of_ne_nil (List.splitOn_ne_nil '/' rest)
  have hpieces : p.pieces = (c :: piece) :: more := by
    rw [pieces, htext, List.splitOn_cons_eq_if_modifyHead, hrest]
    simp [hc]
  simp [components, hpieces, namedPieces, isFiller] at h

theorem upToLast_concat (h : isFiller false piece = false) (first : Bool) :
    upToLast first (pieces ++ [piece]) = pieces ++ [piece] := by
  induction pieces generalizing first with
  | nil =>
    have hfirst : isFiller first piece = false := by
      cases first with
      | false => exact h
      | true => exact Bool.or_eq_false_iff.mpr ⟨(Bool.or_eq_false_iff.mp h).1, by simp⟩
    rw [List.nil_append, upToLast, upToLast, hfirst]
    rfl
  | cons other rest ih =>
    obtain ⟨kept, more, hkept⟩ := List.exists_cons_of_ne_nil (List.concat_ne_nil piece rest)
    rw [List.cons_append, upToLast, ih false, hkept]

/-- A path starts at the root exactly when what is joined to it does, unless that is absolute
itself. -/
theorem isAbsolute_join (hpart : (Path.mk part).isAbsolute = false) :
    (base.join part).isAbsolute = base.isAbsolute := by
  rcases eq_or_ne base.text "" with hempty | hne
  · rw [join_of_whole (.inr hempty), hpart, isAbsolute, hempty]
    rfl
  · exact congrArg Components.atRoot (components_join hpart hne)

theorem EndsInName.text_ne (h : p.EndsInName) : p.text ≠ "" := by
  obtain ⟨c, -, hlast⟩ := h
  intro hempty
  simp [hempty] at hlast

theorem EndsInName.join (h : p.EndsInName) (base : Path) : (base.join p.text).EndsInName := by
  obtain ⟨c, hc, hlast⟩ := h
  obtain ⟨above, htext⟩ := base.exists_text_join p.text
  exact ⟨c, hc, by simp [htext, hlast]⟩

/-- An entry of a directory is joined to a path as the directory is. -/
theorem join_join (h : p.EndsInName) (hname : IsEntryName name) (base : Path) :
    base.join (p.join name).text = (base.join p.text).join name := by
  have habsolute : (Path.mk (p.text ++ "/" ++ name)).isAbsolute = p.isAbsolute := by
    rw [isAbsolute_separator, decide_eq_false h.text_ne, Bool.false_or]
  have hright : (base.join p.text).join name = ⟨(base.join p.text).text ++ "/" ++ name⟩ :=
    congrArg Path.mk (text_join (h.join base) hname)
  rw [hright, text_join h hname]
  unfold Path.join
  rw [habsolute]
  split_ifs <;> simp [String.append_assoc]

theorem pieces_join (hbase : base.EndsInName) (hname : IsEntryName name) :
    (base.join name).pieces = base.pieces ++ [name.toList] := by
  have hjoin : base.join name = ⟨base.text ++ "/" ++ name⟩ :=
    congrArg Path.mk (text_join hbase hname)
  rw [hjoin, pieces_separator]
  exact congrArg (base.pieces ++ ·) (List.splitOn_eq_singleton hname.2)

theorem isFiller_of_isEntryName (h : IsEntryName name) : isFiller false name.toList = false := by
  have hplain := h.1
  simp only [List.mem_cons, List.not_mem_nil, or_false, not_or] at hplain
  obtain ⟨hempty, hdot, -⟩ := hplain
  have hdot' : name.toList ≠ ['.'] := fun heq => hdot (String.toList_inj.mp heq)
  simp [isFiller, hempty, hdot']

/-- The directory of an entry keeps its text when it ends in a name itself. -/
theorem parent?_join (hbase : base.EndsInName) (hname : IsEntryName name)
    (hpieces : base.pieces = pieces ++ [piece]) (hpiece : isFiller false piece = false) :
    (base.join name).parent? = some base := by
  have hkept : upToLast true (base.join name).pieces = base.pieces ++ [name.toList] := by
    rw [pieces_join hbase hname]
    exact upToLast_concat (isFiller_of_isEntryName hname) true
  have habove : upToLast true (base.pieces ++ [name.toList]).dropLast = base.pieces := by
    rw [List.dropLast_concat, hpieces, upToLast_concat hpiece]
  unfold parent?
  rw [hkept]
  split
  next hnil => exact absurd hnil (by simp)
  · rw [habove]
    split
    next hnil => exact absurd hnil base.pieces_ne_nil
    · rw [Path.pieces, List.intercalate_splitOn, String.ofList_toList]

end Path

end HybridBuild
