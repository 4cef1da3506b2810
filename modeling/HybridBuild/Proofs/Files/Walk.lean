import HybridBuild.Files.Tree
import HybridBuild.Proofs.Path

/-!
# Walking a tree without links

Where no location holds a link, a path is followed one name at a time. A path that leads
somewhere has led to a directory before each of its names, so a name that names an entry is
the last one of the location that is found, or free, in that directory.
-/
namespace HybridBuild

namespace FileTree

def HasNoLinks (t : FileTree) : Prop := ∀ loc target, t.at? loc ≠ some (.link target)

/-- Where one name leads from a location of a tree without links. -/
def enterName? (t : FileTree) (loc : Location) (name : String) : Option Location :=
  if t.at? loc ≠ some .dir then none
  else if name = "" ∨ name = "." then some loc
  else if name = ".." then some loc.dropLast
  else if maxNameSize < name.utf8ByteSize then none
  else (t.at? (loc ++ [name])).map fun _ => loc ++ [name]

variable {t : FileTree} {loc inner : Location} {name : String} {rest before : List String}
  {links : Nat} {follow : Location → List String → Option Place} {path base : Path}

/-- A directory in which a name can stand. -/
structure CanHold (t : FileTree) (loc : Location) (name : String) : Prop where
  isDir : t.at? loc = some .dir
  isShort : name.utf8ByteSize ≤ maxNameSize

/-- A name that leads somewhere is followed by the names after it. -/
theorem walkNames_of_enterName? (hlinks : t.HasNoLinks) (h : t.enterName? loc name = some inner) :
    t.walkNames links follow loc (name :: rest) = t.walkNames links follow inner rest := by
  unfold enterName? at h
  split_ifs at h with hdir hstay hup hlong
  · rw [walkNames, if_neg hdir, if_pos hstay, Option.some.inj h]
  · rw [walkNames, if_neg hdir, if_neg hstay, if_pos hup, Option.some.inj h]
  · rw [walkNames, if_neg hdir, if_neg hstay, if_neg hup, if_neg hlong]
    obtain ⟨e, hentry, rfl⟩ := Option.map_eq_some_iff.mp h
    rw [hentry]
    cases e with
    | link target => exact absurd hentry (hlinks _ target)
    | file content => rfl
    | dir => rfl
    | special => rfl

/-- A name that leads nowhere ends the walk. It may be free if it is the last one. -/
theorem of_walkNames_of_enterName? {place : Place} (hnone : t.enterName? loc name = none)
    (h : t.walkNames links follow loc (name :: rest) = some place) :
    rest = [] ∧ place = .free (loc ++ [name]) ∧ t.at? (loc ++ [name]) = none ∧
      t.CanHold loc name := by
  unfold enterName? at hnone
  split_ifs at hnone with hdir hstay hup hlong
  · rw [walkNames, if_pos hdir] at h
    cases h
  · rw [walkNames, if_neg hdir, if_neg hstay, if_neg hup, if_pos hlong] at h
    cases h
  · rw [Option.map_eq_none_iff] at hnone
    rw [walkNames, if_neg hdir, if_neg hstay, if_neg hup, if_neg hlong, hnone] at h
    obtain ⟨hlast, hplace⟩ : rest = [] ∧ Place.free (loc ++ [name]) = place := by
      simpa using h
    exact ⟨hlast, hplace.symm, hnone, not_not.mp hdir, Nat.not_lt.mp hlong⟩

/-- The name of an entry leads to that entry. -/
theorem enterName?_eq_some_iff (hname : IsEntryName name) : t.enterName? loc name = some inner ↔
    inner = loc ++ [name] ∧ t.CanHold loc name ∧ (t.at? inner).isSome := by
  have hplain := hname.1
  simp only [List.mem_cons, List.not_mem_nil, or_false, not_or] at hplain
  obtain ⟨hempty, hdot, hdots⟩ := hplain
  have hstay : ¬(name = "" ∨ name = ".") := not_or.mpr ⟨hempty, hdot⟩
  unfold enterName?
  rw [if_neg hstay, if_neg hdots]
  constructor
  · intro h
    split_ifs at h with hdir hlong
    obtain ⟨e, hentry, rfl⟩ := Option.map_eq_some_iff.mp h
    exact ⟨rfl, ⟨not_not.mp hdir, Nat.not_lt.mp hlong⟩, by rw [hentry]; rfl⟩
  · rintro ⟨rfl, ⟨hdir, hshort⟩, hsome⟩
    obtain ⟨e, hentry⟩ := Option.isSome_iff_exists.mp hsome
    rw [if_neg (not_not.mpr hdir), if_neg (Nat.not_lt.mpr hshort), hentry, Option.map_some]

theorem foldlM_concat_eq_some_iff (hname : IsEntryName name) :
    (before ++ [name]).foldlM t.enterName? loc = some inner ↔
      ∃ dir, before.foldlM t.enterName? loc = some dir ∧ inner = dir ++ [name] ∧
        t.CanHold dir name ∧ (t.at? inner).isSome := by
  have hlast (dir : Location) : [name].foldlM t.enterName? dir = some inner ↔
      inner = dir ++ [name] ∧ t.CanHold dir name ∧ (t.at? inner).isSome := by
    rw [← enterName?_eq_some_iff hname]
    simp
  rw [List.foldlM_append, Option.bind_eq_bind, Option.bind_eq_some_iff]
  simp only [hlast]

/-- The place that names lead to is found by entering them in turn. -/
theorem walkNames_eq_found_iff (hlinks : t.HasNoLinks) {names : List String} {left : Nat} :
    t.walkNames links follow loc names = some (.found inner left) ↔
      names.foldlM t.enterName? loc = some inner ∧ links = left := by
  induction names generalizing loc with
  | nil => simp [walkNames]
  | cons name rest ih =>
    rw [List.foldlM_cons]
    cases hname : t.enterName? loc name with
    | none =>
      simp only [Option.bind_eq_bind, Option.bind_none, reduceCtorEq, false_and, iff_false]
      intro h
      obtain ⟨-, hplace, -⟩ := of_walkNames_of_enterName? hname h
      cases hplace
    | some entered =>
      rw [walkNames_of_enterName? hlinks hname, ih]
      rfl

/-- Names lead to a free name only in front of it, by entering the names before the last one. -/
theorem of_walkNames_eq_free (hlinks : t.HasNoLinks) {names : List String} {free : Location}
    (h : t.walkNames links follow loc names = some (.free free)) :
    ∃ before name inner, names = before ++ [name] ∧ before.foldlM t.enterName? loc = some inner ∧
      free = inner ++ [name] ∧ t.at? free = none ∧ t.CanHold inner name := by
  induction names generalizing loc with
  | nil => simp [walkNames] at h
  | cons name rest ih =>
    cases hname : t.enterName? loc name with
    | none =>
      obtain ⟨rfl, hplace, hfree⟩ := of_walkNames_of_enterName? hname h
      obtain rfl := Place.free.inj hplace
      exact ⟨[], name, loc, rfl, rfl, rfl, hfree⟩
    | some entered =>
      rw [walkNames_of_enterName? hlinks hname] at h
      obtain ⟨before, last, inner, rfl, hbefore, hfree⟩ := ih h
      refine ⟨name :: before, last, inner, rfl, ?_, hfree⟩
      rw [List.foldlM_cons, hname]
      exact hbefore

theorem walkNames_append (hlinks : t.HasNoLinks) (h : before.foldlM t.enterName? loc = some inner)
    (rest : List String) :
    t.walkNames links follow loc (before ++ rest) = t.walkNames links follow inner rest := by
  induction before generalizing loc with
  | nil =>
    obtain rfl := Option.some.inj h
    rfl
  | cons name before ih =>
    rw [List.foldlM_cons] at h
    obtain ⟨entered, henter, hbefore⟩ := Option.bind_eq_some_iff.mp h
    rw [List.cons_append, walkNames_of_enterName? hlinks henter, ih hbefore]

theorem walkNames_of_free (hname : IsEntryName name) (hhold : t.CanHold loc name)
    (hnone : t.at? (loc ++ [name]) = none) :
    t.walkNames links follow loc [name] = some (.free (loc ++ [name])) := by
  have hplain := hname.1
  simp only [List.mem_cons, List.not_mem_nil, or_false, not_or] at hplain
  obtain ⟨hempty, hdot, hdots⟩ := hplain
  rw [walkNames, if_neg (not_not.mpr hhold.isDir), if_neg (not_or.mpr ⟨hempty, hdot⟩),
    if_neg hdots, if_neg (Nat.not_lt.mpr hhold.isShort), hnone]
  rfl

theorem walk_eq_walkNames (t : FileTree) (links : Nat) :
    ∃ follow, t.walk links = t.walkNames links follow := by
  cases links with
  | zero => exact ⟨_, rfl⟩
  | succ links => exact ⟨_, rfl⟩

def Lookable (path : Path) : Prop := path.text ≠ "" ∧ isUsable path

instance (path : Path) : Decidable (Lookable path) := inferInstanceAs (Decidable (_ ∧ _))

theorem place?_eq_some_iff {place : Place} : t.place? path = some place ↔
    Lookable path ∧ t.walk maxLinks (t.start path) (names path) = some place := by
  unfold place? Lookable
  cases hempty : path.text.isEmpty with
  | true => simp [String.isEmpty_iff.mp hempty]
  | false =>
    have hne : path.text ≠ "" := fun h => by simp [h] at hempty
    cases isUsable path <;> simp [hne]

theorem find?_eq_some_iff_place? :
    t.find? path = some loc ↔ ∃ links, t.place? path = some (.found loc links) := by
  unfold find?
  split
  next found links hplace => simp [hplace]
  next hother =>
    constructor
    · nofun
    · rintro ⟨links, hplace⟩
      exact absurd hplace (hother loc links)

/-- A path leads to what is found by entering its names in turn. -/
theorem find?_eq_some_iff (hlinks : t.HasNoLinks) : t.find? path = some loc ↔
    Lookable path ∧ (names path).foldlM t.enterName? (t.start path) = some loc := by
  obtain ⟨follow, hwalk⟩ := t.walk_eq_walkNames maxLinks
  simp only [find?_eq_some_iff_place?, place?_eq_some_iff, hwalk, walkNames_eq_found_iff hlinks,
    exists_and_left, exists_eq', and_true]

theorem names_join (hbase : base.EndsInName) (hname : IsEntryName name) :
    names (base.join name) = names base ++ [name] := by
  rw [names, Path.pieces_join hbase hname, List.map_append, List.map_singleton,
    String.ofList_toList]
  rfl

/-- Whatever a path looks like, the name that is joined to it is the last one. -/
theorem exists_names_join (base : Path) (hname : IsEntryName name) :
    ∃ before, names (base.join name) = before ++ [name] := by
  obtain ⟨before, hbefore⟩ := base.exists_pieces_join name
  have hsingle : (Path.mk name).pieces = [name.toList] := List.splitOn_eq_singleton hname.2
  refine ⟨before.map String.ofList, ?_⟩
  rw [names, hbefore, hsingle, List.map_append, List.map_singleton, String.ofList_toList]

theorem start_join (t : FileTree) (hbase : base.EndsInName) (hname : IsEntryName name) :
    t.start (base.join name) = t.start base := by
  have htext := Path.text_join hbase hname
  obtain ⟨c, -, hlast⟩ := hbase
  obtain ⟨above, habove⟩ := List.getLast?_eq_some_iff.mp hlast
  have hhead : (base.join name).isAbsolute = base.isAbsolute := by
    rw [Path.isAbsolute, Path.isAbsolute, htext]
    cases above <;> simp [habove]
  rw [start, start, hhead]

theorem Lookable.of_join (hbase : base.EndsInName) (hname : IsEntryName name)
    (h : Lookable (base.join name)) : Lookable base := by
  obtain ⟨-, husable⟩ := h
  constructor
  · intro hempty
    obtain ⟨c, -, hlast⟩ := hbase
    simp [hempty] at hlast
  · simp only [isUsable, Path.text_join hbase hname, Bool.and_eq_true, decide_eq_true_eq,
      String.utf8ByteSize_append, String.toList_append, List.contains_eq_mem, List.mem_append,
      Bool.not_eq_true', decide_eq_false_iff_not, not_or] at husable ⊢
    exact ⟨by omega, husable.2.1.1⟩

/-- The name of an entry leads to a free name or to an entry, in a directory that is found. -/
theorem of_place?_join (hlinks : t.HasNoLinks) (hbase : base.EndsInName)
    (hname : IsEntryName name) {place : Place} (h : t.place? (base.join name) = some place) :
    ∃ dir, t.find? base = some dir ∧ t.CanHold dir name ∧
      ((place = .free (dir ++ [name]) ∧ t.at? (dir ++ [name]) = none) ∨
        ∃ links, place = .found (dir ++ [name]) links) := by
  obtain ⟨hlookable, hwalk⟩ := place?_eq_some_iff.mp h
  obtain ⟨follow, hfollow⟩ := t.walk_eq_walkNames maxLinks
  rw [hfollow, start_join t hbase hname, names_join hbase hname] at hwalk
  have hfind {dir : Location} : t.find? base = some dir ↔
      (names base).foldlM t.enterName? (t.start base) = some dir := by
    rw [find?_eq_some_iff hlinks]
    exact and_iff_right (hlookable.of_join hbase hname)
  cases place with
  | free free =>
    obtain ⟨before, last, dir, hnames, hdir, rfl, hnone, hhold⟩ := of_walkNames_eq_free hlinks hwalk
    obtain ⟨rfl, hlast⟩ := List.append_inj' hnames rfl
    obtain rfl : name = last := List.singleton_injective hlast
    exact ⟨dir, hfind.mpr hdir, hhold, .inl ⟨rfl, hnone⟩⟩
  | found loc links =>
    obtain ⟨hfound, -⟩ := (walkNames_eq_found_iff hlinks).mp hwalk
    obtain ⟨dir, hdir, rfl, hhold, -⟩ := (foldlM_concat_eq_some_iff hname).mp hfound
    exact ⟨dir, hfind.mpr hdir, hhold, .inr ⟨links, rfl⟩⟩

/-- The name of an entry is found in the directory that holds the entry. -/
theorem find?_join (hlinks : t.HasNoLinks) (hbase : base.EndsInName) (hname : IsEntryName name)
    (hlookable : Lookable (base.join name)) {dir : Location} (hdir : t.find? base = some dir)
    (hhold : t.CanHold dir name) (hsome : (t.at? (dir ++ [name])).isSome) :
    t.find? (base.join name) = some (dir ++ [name]) := by
  obtain ⟨-, hwalk⟩ := (find?_eq_some_iff hlinks).mp hdir
  refine (find?_eq_some_iff hlinks).mpr ⟨hlookable, ?_⟩
  rw [start_join t hbase hname, names_join hbase hname]
  exact (foldlM_concat_eq_some_iff hname).mpr ⟨dir, hwalk, rfl, hhold, hsome⟩

/-- A name that is free in a directory can be taken there. -/
theorem place?_join_of_free (hlinks : t.HasNoLinks) (hbase : base.EndsInName)
    (hname : IsEntryName name) (hlookable : Lookable (base.join name)) {dir : Location}
    (hdir : t.find? base = some dir) (hhold : t.CanHold dir name)
    (hnone : t.at? (dir ++ [name]) = none) :
    t.place? (base.join name) = some (.free (dir ++ [name])) := by
  obtain ⟨-, hwalk⟩ := (find?_eq_some_iff hlinks).mp hdir
  obtain ⟨follow, hfollow⟩ := t.walk_eq_walkNames maxLinks
  refine place?_eq_some_iff.mpr ⟨hlookable, ?_⟩
  rw [hfollow, start_join t hbase hname, names_join hbase hname, walkNames_append hlinks hwalk,
    walkNames_of_free hname hhold hnone]

/-- What is found under the name of an entry bears that name. -/
theorem exists_of_find?_join (hlinks : t.HasNoLinks) (hname : IsEntryName name)
    (h : t.find? (base.join name) = some loc) : ∃ dir, loc = dir ++ [name] := by
  obtain ⟨-, hfound⟩ := (find?_eq_some_iff hlinks).mp h
  obtain ⟨before, hnames⟩ := exists_names_join base hname
  rw [hnames] at hfound
  obtain ⟨dir, -, rfl, -⟩ := (foldlM_concat_eq_some_iff hname).mp hfound
  exact ⟨dir, rfl⟩

end FileTree

end HybridBuild
