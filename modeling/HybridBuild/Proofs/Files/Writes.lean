import HybridBuild.Proofs.Files.Walk

/-!
# What is written where

Writing a file changes one location, and making directories fills free ones. Neither makes
anything of a directory or takes a file away, so what a path led to before it still leads to
afterwards. A step is described by the locations of files that it may write; steps with the
same description compose.
-/
namespace HybridBuild.FileTree

/-- What may become of a location, when a file may be written there only if it is writable. -/
inductive Change (writable : Prop) : Option Entry → Option Entry → Prop
  | kept (e : Option Entry) : Change writable e e
  | made : Change writable none (some .dir)
  | created (h : writable) (content : List UInt8) : Change writable none (some (.file content))
  | rewritten (h : writable) (old new : List UInt8) :
      Change writable (some (.file old)) (some (.file new))

namespace Change

variable {writable writable' : Prop} {before between after : Option Entry} {e : Entry}

theorem mono (h : Change writable before after) (himp : writable → writable') :
    Change writable' before after := by
  cases h with
  | kept => exact .kept _
  | made => exact .made
  | created h => exact .created (himp h) _
  | rewritten h => exact .rewritten (himp h) _ _

theorem trans (h : Change writable before between) (h' : Change writable between after) :
    Change writable before after := by
  cases h' with
  | kept => exact h
  | made =>
    cases h
    exact .made
  | created h' content =>
    cases h
    exact .created h' content
  | rewritten h' old new =>
    cases h with
    | kept => exact .rewritten h' old new
    | created h => exact .created h new
    | rewritten h older => exact .rewritten h older new

theorem eq_dir (h : Change writable (some .dir) after) : after = some .dir := by
  cases h
  rfl

theorem isSome (h : Change writable before after) (hsome : before.isSome) : after.isSome := by
  cases h with
  | kept => exact hsome
  | made => rfl
  | created => rfl
  | rewritten => rfl

theorem eq_of_not (h : Change writable (some e) after) (hnot : ¬ writable) : after = some e := by
  cases h with
  | kept => rfl
  | rewritten h => exact absurd h hnot

theorem ne_link (h : Change writable before after)
    (hbefore : ∀ target, before ≠ some (.link target))
    (target : String) : after ≠ some (.link target) := by
  cases h with
  | kept => exact hbefore target
  | made => simp
  | created => simp
  | rewritten => simp

end Change

/-- A step makes directories under free names and writes files at writable locations, and
changes nothing else. -/
structure Touches (writable : Location → Prop) (t t' : FileTree) : Prop where
  workDir : t'.workDir = t.workDir
  change : ∀ loc, Change (writable loc) (t.at? loc) (t'.at? loc)

/-- A step writes no files but those of some names in a directory. -/
def OnlyWrites (base : Path) (names : List String) (t t' : FileTree) : Prop :=
  Touches (fun loc => ∃ dir, t'.find? base = some dir ∧ ∃ name ∈ names, loc = dir ++ [name]) t t'

variable {t t' t'' : FileTree} {writable writable' : Location → Prop} {base path : Path}
  {loc inner : Location} {name : String} {names names' : List String}

namespace Touches

theorem refl (t : FileTree) : Touches writable t t := ⟨rfl, fun _ => .kept _⟩

theorem trans (h : Touches writable t t') (h' : Touches writable t' t'') :
    Touches writable t t'' :=
  ⟨h'.workDir.trans h.workDir, fun loc => (h.change loc).trans (h'.change loc)⟩

theorem mono (h : Touches writable t t') (himp : ∀ loc, writable loc → writable' loc) :
    Touches writable' t t' :=
  ⟨h.workDir, fun loc => (h.change loc).mono (himp loc)⟩

theorem hasNoLinks (h : Touches writable t t') (hlinks : t.HasNoLinks) : t'.HasNoLinks :=
  fun loc => (h.change loc).ne_link (hlinks loc)

theorem canHold (h : Touches writable t t') (hhold : t.CanHold loc name) : t'.CanHold loc name :=
  ⟨(hhold.isDir ▸ h.change loc).eq_dir, hhold.isShort⟩

/-- A name leads where it led before. -/
theorem enterName? (h : Touches writable t t') (henter : t.enterName? loc name = some inner) :
    t'.enterName? loc name = some inner := by
  unfold FileTree.enterName? at henter ⊢
  have hkept (hdir : ¬ t.at? loc ≠ some .dir) : ¬ t'.at? loc ≠ some .dir := by
    rw [not_not] at hdir ⊢
    exact (hdir ▸ h.change loc).eq_dir
  split_ifs at henter with hdir hstay hup hlong
  · rw [if_neg (hkept hdir), if_pos hstay, henter]
  · rw [if_neg (hkept hdir), if_neg hstay, if_pos hup, henter]
  · rw [if_neg (hkept hdir), if_neg hstay, if_neg hup, if_neg hlong]
    obtain ⟨e, hentry, rfl⟩ := Option.map_eq_some_iff.mp henter
    have hsome := (h.change (loc ++ [name])).isSome (by rw [hentry]; rfl)
    obtain ⟨e', hentry'⟩ := Option.isSome_iff_exists.mp hsome
    rw [hentry', Option.map_some]

theorem foldlM_enterName? (h : Touches writable t t')
    (hwalk : names.foldlM t.enterName? loc = some inner) :
    names.foldlM t'.enterName? loc = some inner := by
  induction names generalizing loc with
  | nil => exact hwalk
  | cons name rest ih =>
    rw [List.foldlM_cons] at hwalk ⊢
    obtain ⟨entered, henter, hrest⟩ := Option.bind_eq_some_iff.mp hwalk
    rw [h.enterName? henter]
    exact ih hrest

/-- A path leads where it led before. -/
theorem find? (h : Touches writable t t') (hlinks : t.HasNoLinks)
    (hfind : t.find? path = some loc) :
    t'.find? path = some loc := by
  obtain ⟨hlookable, hwalk⟩ := (find?_eq_some_iff hlinks).mp hfind
  have hstart : t'.start path = t.start path := by rw [start, start, h.workDir]
  refine (find?_eq_some_iff (h.hasNoLinks hlinks)).mpr ⟨hlookable, ?_⟩
  rw [hstart]
  exact h.foldlM_enterName? hwalk

end Touches

theorem read?_eq_some_iff {content : List UInt8} : t.read? path = some content ↔
    ∃ loc, t.find? path = some loc ∧ t.at? loc = some (.file content) := by
  have hentry : t.read? path = some content ↔ t.entry? path = some (.file content) := by
    unfold read?
    split
    next old hold => simp [hold]
    next hnone => exact ⟨nofun, fun h => (hnone content h).elim⟩
  rw [hentry, entry?]
  exact Option.bind_eq_some_iff

theorem at?_put (hne : loc ≠ []) (e : Entry) (other : Location) :
    (t.put loc e).at? other = if other = loc then some e else t.at? other := by
  unfold at? put
  by_cases hroot : other = []
  · rw [if_pos hroot, if_pos hroot, if_neg (hroot ▸ hne.symm)]
  · rw [if_neg hroot, if_neg hroot, Std.TreeMap.getElem?_insert]
    simp only [Std.LawfulEqCmp.compare_eq_iff_eq, eq_comm (a := loc)]

/-- Putting an entry at a location is a step when the location may change into it. -/
theorem touches_put (hne : loc ≠ []) {e : Entry} (h : Change (writable loc) (t.at? loc) (some e)) :
    Touches writable t (t.put loc e) := by
  refine ⟨rfl, fun other => ?_⟩
  rw [at?_put hne]
  split
  next heq => exact heq ▸ h
  next => exact .kept _

theorem HasNoLinks.put (h : t.HasNoLinks) (hne : loc ≠ []) {e : Entry}
    (he : ∀ target, e ≠ .link target) : (t.put loc e).HasNoLinks := by
  intro other target
  rw [at?_put hne]
  split
  · simpa using he target
  · exact h other target

theorem hasNoLinks_onlyWorkDir (workDir : Location) : (onlyWorkDir workDir).HasNoLinks := by
  have hroot : (⟨∅, workDir⟩ : FileTree).HasNoLinks := by
    intro loc target
    unfold at?
    split <;> simp
  unfold onlyWorkDir
  refine List.foldlRecOn _ _ hroot fun t h n hn => ?_
  have hlt : n < workDir.length := List.mem_range.mp hn
  refine h.put (fun hnil => ?_) nofun
  have hlength := congrArg List.length hnil
  rw [List.length_take, List.length_nil] at hlength
  omega

namespace OnlyWrites

theorem refl (t : FileTree) : OnlyWrites base names t t := Touches.refl t

theorem mono (h : OnlyWrites base names t t') (hsub : names ⊆ names') :
    OnlyWrites base names' t t' :=
  Touches.mono h fun _ ⟨dir, hdir, name, hname, hloc⟩ => ⟨dir, hdir, name, hsub hname, hloc⟩

theorem hasNoLinks (h : OnlyWrites base names t t') (hlinks : t.HasNoLinks) : t'.HasNoLinks :=
  Touches.hasNoLinks h hlinks

/-- Steps that write in one directory compose, since the directory is found where it was. -/
theorem trans (hlinks : t.HasNoLinks) (h : OnlyWrites base names t t')
    (h' : OnlyWrites base names t' t'') : OnlyWrites base names t t'' := by
  have hfirst : Touches (fun loc => ∃ dir, t''.find? base = some dir ∧ ∃ name ∈ names,
      loc = dir ++ [name]) t t' :=
    Touches.mono h fun _ ⟨dir, hdir, hname⟩ =>
      ⟨dir, Touches.find? h' (h.hasNoLinks hlinks) hdir, hname⟩
  exact hfirst.trans h'

/-- A file under another name is still there, and reads as before. -/
theorem read?_join (h : OnlyWrites base names t t') (hlinks : t.HasNoLinks)
    (hname : IsEntryName name) (hother : name ∉ names) {dir : Path} {content : List UInt8}
    (hread : t.read? (dir.join name) = some content) : t'.read? (dir.join name) = some content := by
  obtain ⟨loc, hfind, hfile⟩ := read?_eq_some_iff.mp hread
  obtain ⟨above, rfl⟩ := exists_of_find?_join hlinks hname hfind
  refine read?_eq_some_iff.mpr ⟨_, Touches.find? h hlinks hfind, ?_⟩
  refine (hfile ▸ Touches.change h (above ++ [name])).eq_of_not ?_
  rintro ⟨found, -, written, hwritten, heq⟩
  obtain rfl : name = written := List.singleton_injective (List.append_inj' heq rfl).2
  exact hother hwritten

end OnlyWrites

/-- Entering a directory makes it at most. -/
theorem onlyWrites_of_enter? (hlinks : t.HasNoLinks) {links left : Nat}
    (h : t.enter? links loc name = some (t', left, inner)) : OnlyWrites base [] t t' := by
  unfold enter? at h
  split at h
  next hfound =>
    split_ifs at h
    cases h
    exact .refl t
  next free hfree =>
    split_ifs at h with hname
    cases h
    obtain ⟨follow, hwalk⟩ := t.walk_eq_walkNames links
    rw [hwalk] at hfree
    obtain ⟨-, -, -, -, -, -, hnone, -⟩ := of_walkNames_eq_free hlinks hfree
    have hne : inner ≠ [] := by
      rw [hname]
      simp
    exact touches_put hne (by rw [hnone]; exact .made)
  next => cases h

theorem onlyWrites_makeDirsFrom (hlinks : t.HasNoLinks) (links : Nat) (loc : Location)
    (walked : List String) : OnlyWrites base [] t (t.makeDirsFrom links loc walked).1 := by
  induction walked generalizing t links loc with
  | nil => exact .refl t
  | cons name rest ih =>
    rw [makeDirsFrom]
    cases henter : t.enter? links loc name with
    | none => exact .refl t
    | some entered =>
      obtain ⟨made, links, inner⟩ := entered
      have hmade : OnlyWrites base [] t made := onlyWrites_of_enter? hlinks henter
      exact hmade.trans hlinks (ih (hmade.hasNoLinks hlinks) links inner)

theorem onlyWrites_makeDirs (hlinks : t.HasNoLinks) (path : Path) :
    OnlyWrites base [] t (t.makeDirs path).1 := by
  unfold makeDirs
  split_ifs
  · exact .refl t
  · exact .refl t
  · have hmade : OnlyWrites base [] t
        (t.makeDirsFrom maxLinks (t.start path) (names (toBeMade path))).1 :=
      onlyWrites_makeDirsFrom hlinks _ _ _
    rcases hrun : t.makeDirsFrom maxLinks (t.start path) (names (toBeMade path)) with
      ⟨made, success⟩
    rw [hrun] at hmade
    exact hmade

/-- A file is written at the location that its path leads to. -/
theorem of_write?_join (hlinks : t.HasNoLinks) (hbase : base.EndsInName)
    (hname : IsEntryName name) {content : List UInt8}
    (h : t.write? (base.join name) content = some t') :
    Lookable (base.join name) ∧ ∃ dir, t.find? base = some dir ∧ t.CanHold dir name ∧
      t' = t.put (dir ++ [name]) (.file content) ∧
      Change True (t.at? (dir ++ [name])) (some (.file content)) := by
  unfold write? at h
  cases hplace : t.place? (base.join name) with
  | none => simp [hplace] at h
  | some place =>
    refine ⟨(place?_eq_some_iff.mp hplace).1, ?_⟩
    obtain ⟨dir, hdir, hhold, ⟨rfl, hnone⟩ | ⟨links, rfl⟩⟩ :=
      of_place?_join hlinks hbase hname hplace
    · simp only [hplace, Option.some.injEq] at h
      exact ⟨dir, hdir, hhold, h.symm, hnone ▸ .created trivial content⟩
    · simp only [hplace] at h
      split at h
      next old hfile =>
        exact ⟨dir, hdir, hhold, (Option.some.inj h).symm, hfile ▸ .rewritten trivial old content⟩
      · cases h

theorem touches_put_file {dir : Location} {content : List UInt8}
    (h : Change True (t.at? (dir ++ [name])) (some (.file content))) :
    Touches (· = dir ++ [name]) t (t.put (dir ++ [name]) (.file content)) :=
  touches_put (by simp) (h.mono fun _ => rfl)

/-- Writing a text in a directory writes that file only, which then holds the text. -/
theorem of_writeText?_join (hlinks : t.HasNoLinks) (hbase : base.EndsInName)
    (hname : IsEntryName name) {text : String} (h : t.writeText? (base.join name) text = some t') :
    OnlyWrites base [name] t t' ∧ t'.read? (base.join name) = some (Utf8.encode text) := by
  obtain ⟨hlookable, dir, hdir, hhold, rfl, hchange⟩ := of_write?_join hlinks hbase hname h
  have htouch := touches_put_file hchange
  have hfound := htouch.find? hlinks hdir
  have hfile : (t.put (dir ++ [name]) (.file (Utf8.encode text))).at? (dir ++ [name]) =
      some (.file (Utf8.encode text)) := by rw [at?_put (by simp), if_pos rfl]
  have hhold' := htouch.canHold hhold
  refine ⟨htouch.mono ?_, read?_eq_some_iff.mpr ⟨dir ++ [name], ?_, hfile⟩⟩
  · rintro loc rfl
    exact ⟨dir, hfound, name, List.mem_singleton_self name, rfl⟩
  · exact find?_join (htouch.hasNoLinks hlinks) hbase hname hlookable hfound hhold'
      (by rw [hfile]; rfl)

/-- In the directory that a path leads to, a file can be written under a name: the name is free
there, or that of a file. -/
structure Takes (t : FileTree) (base : Path) (name : String) : Prop where
  lookable : Lookable (base.join name)
  place : ∃ dir, t.find? base = some dir ∧ t.CanHold dir name ∧
    ∀ e, t.at? (dir ++ [name]) = some e → ∃ content, e = .file content

theorem exists_write?_join_iff (hlinks : t.HasNoLinks) (hbase : base.EndsInName)
    (hname : IsEntryName name) (content : List UInt8) :
    (∃ t', t.write? (base.join name) content = some t') ↔ t.Takes base name := by
  constructor
  · rintro ⟨t', h⟩
    obtain ⟨hlookable, dir, hdir, hhold, -, hchange⟩ := of_write?_join hlinks hbase hname h
    refine ⟨hlookable, dir, hdir, hhold, fun e he => ?_⟩
    rw [he] at hchange
    cases hchange with
    | kept => exact ⟨_, rfl⟩
    | rewritten => exact ⟨_, rfl⟩
  · rintro ⟨hlookable, dir, hdir, hhold, hfile⟩
    unfold write?
    cases hentry : t.at? (dir ++ [name]) with
    | none =>
      rw [place?_join_of_free hlinks hbase hname hlookable hdir hhold hentry]
      exact ⟨_, rfl⟩
    | some e =>
      obtain ⟨old, rfl⟩ := hfile e hentry
      have hfound := find?_join hlinks hbase hname hlookable hdir hhold (by rw [hentry]; rfl)
      obtain ⟨links, hplace⟩ := find?_eq_some_iff_place?.mp hfound
      simp only [hplace, hentry]
      exact ⟨_, rfl⟩

/-- Where a file could be written before another one was, it still can be. -/
theorem Takes.of_write?_join {other : String} (h : t.Takes base other) (hlinks : t.HasNoLinks)
    (hbase : base.EndsInName) (hname : IsEntryName name) {content : List UInt8}
    (hwrite : t.write? (base.join name) content = some t') : t'.Takes base other := by
  obtain ⟨hlookable, found, hfound, hhold, hfile⟩ := h
  obtain ⟨-, dir, -, -, rfl, hchange⟩ := FileTree.of_write?_join hlinks hbase hname hwrite
  have htouch := touches_put_file hchange
  refine ⟨hlookable, found, htouch.find? hlinks hfound, htouch.canHold hhold, fun e he => ?_⟩
  rw [at?_put (by simp)] at he
  split at he
  · exact ⟨content, (Option.some.inj he).symm⟩
  · exact hfile e he

end HybridBuild.FileTree
