import HybridBuild.Proofs.Files.Writes
import HybridBuild.Proofs.Traverse
import HybridBuild.Scripts.Write

/-!
# The scripts as they are written

The scripts are written one after the other, and none of them in the place of another one. So
nothing else in their directory changes, and when all of them have been written, each holds its
text.
-/
namespace HybridBuild.ScriptSet

open FileTree

variable {t : FileTree} {dir : Path}

/-- Of some files, those up to the first that cannot be written are written. -/
theorem onlyWrites_writeFiles (hlinks : t.HasNoLinks) (hdir : dir.EndsInName)
    {written : List (String × String)} (hnames : ∀ file ∈ written, IsEntryName file.1) :
    OnlyWrites dir (written.map Prod.fst) t (writeFiles dir t written).2 := by
  induction written generalizing t with
  | nil => exact .refl t
  | cons file rest ih =>
    obtain ⟨name, text⟩ := file
    obtain ⟨hname, hrest⟩ := List.forall_mem_cons.mp hnames
    unfold writeFiles
    cases hwrite : t.writeText? (dir.join name) text with
    | none => exact .refl t
    | some t' =>
      obtain ⟨hfirst, -⟩ := of_writeText?_join hlinks hdir hname hwrite
      have hothers := ih (hfirst.hasNoLinks hlinks) hrest
      exact (hfirst.mono (by simp)).trans hlinks (hothers.mono (by simp))

/-- When all of some files are written, each of them holds its text. -/
theorem read?_of_writeFiles (hlinks : t.HasNoLinks) (hdir : dir.EndsInName)
    {written : List (String × String)} (hnames : ∀ file ∈ written, IsEntryName file.1)
    (hnodup : (written.map Prod.fst).Nodup) (hok : (writeFiles dir t written).1 = .ok ()) :
    ∀ file ∈ written, (writeFiles dir t written).2.read? (dir.join file.1) =
      some (Utf8.encode file.2) := by
  induction written generalizing t with
  | nil => nofun
  | cons file rest ih =>
    obtain ⟨name, text⟩ := file
    obtain ⟨hname, hrest⟩ := List.forall_mem_cons.mp hnames
    obtain ⟨hnew, hnodup⟩ := List.nodup_cons.mp hnodup
    unfold writeFiles at hok ⊢
    cases hwrite : t.writeText? (dir.join name) text with
    | none => simp [hwrite] at hok
    | some t' =>
      simp only [hwrite] at hok
      obtain ⟨hfirst, hread⟩ := of_writeText?_join hlinks hdir hname hwrite
      have hlinks' := hfirst.hasNoLinks hlinks
      refine List.forall_mem_cons.mpr ⟨?_, ih hlinks' hrest hnodup hok⟩
      exact (onlyWrites_writeFiles hlinks' hdir hrest).read?_join hlinks' hname hnew hread

/-- Files are all written when each of them can be. -/
theorem exists_writeFiles (hlinks : t.HasNoLinks) (hdir : dir.EndsInName)
    {written : List (String × String)}
    (htakes : ∀ file ∈ written, IsEntryName file.1 ∧ t.Takes dir file.1) :
    ∃ left, writeFiles dir t written = (.ok (), left) ∧
      ∀ name, t.Takes dir name → left.Takes dir name := by
  induction written generalizing t with
  | nil => exact ⟨t, rfl, fun _ h => h⟩
  | cons file rest ih =>
    obtain ⟨name, text⟩ := file
    obtain ⟨⟨hname, htake⟩, hrest⟩ := List.forall_mem_cons.mp htakes
    obtain ⟨t', hwrite⟩ :=
      (exists_write?_join_iff hlinks hdir hname (Utf8.encode text)).mpr htake
    have hkeeps (other : String) (h : t.Takes dir other) : t'.Takes dir other :=
      h.of_write?_join hlinks hdir hname hwrite
    have hlinks' := (of_writeText?_join hlinks hdir hname hwrite).1.hasNoLinks hlinks
    obtain ⟨left, hothers, hleft⟩ := ih hlinks' fun file hfile =>
      ⟨(hrest file hfile).1, hkeeps file.1 (hrest file hfile).2⟩
    have hfirst : t.writeText? (dir.join name) text = some t' := hwrite
    refine ⟨left, ?_, fun other h => hleft other (hkeeps other h)⟩
    unfold writeFiles
    rw [hfirst]
    exact hothers

variable {s : ScriptSet}

theorem map_fst_files (s : ScriptSet) : s.files.map Prod.fst = fileNames := rfl

theorem isEntryName_of_mem_fileNames : ∀ name ∈ fileNames, IsEntryName name := by
  decide +kernel

theorem isEntryName_of_mem_files : ∀ file ∈ s.files, IsEntryName file.1 := fun file hfile =>
  isEntryName_of_mem_fileNames file.1 (s.map_fst_files ▸ List.mem_map_of_mem hfile)

theorem onlyWrites_write (hlinks : t.HasNoLinks) (hdir : dir.EndsInName) :
    OnlyWrites dir fileNames t (s.write dir t).2 := by
  have hdirs : OnlyWrites dir [] t (t.makeDirs dir).1 := onlyWrites_makeDirs hlinks dir
  unfold write
  rcases hmade : t.makeDirs dir with ⟨made, _ | _⟩
  · rw [hmade] at hdirs
    exact hdirs.mono (List.nil_subset _)
  · rw [hmade] at hdirs
    have hfiles := onlyWrites_writeFiles (hdirs.hasNoLinks hlinks) hdir s.isEntryName_of_mem_files
    exact (hdirs.mono (List.nil_subset _)).trans hlinks hfiles

theorem read?_of_write (hlinks : t.HasNoLinks) (hdir : dir.EndsInName) {paths : List Path}
    {left : FileTree} (h : s.write dir t = (.ok paths, left)) :
    ∀ file ∈ s.files, left.read? (dir.join file.1) = some (Utf8.encode file.2) := by
  have hdirs : OnlyWrites dir [] t (t.makeDirs dir).1 := onlyWrites_makeDirs hlinks dir
  have hnodup : (s.files.map Prod.fst).Nodup := by
    rw [map_fst_files]
    decide
  unfold write at h
  rcases hmade : t.makeDirs dir with ⟨made, _ | _⟩
  · simp [hmade] at h
  · rw [hmade] at hdirs
    simp only [hmade, Prod.mk.injEq] at h
    obtain ⟨hok, rfl⟩ := h
    obtain ⟨⟨⟩, hwritten, -⟩ := except_map_eq_ok_iff.mp hok
    exact read?_of_writeFiles (hdirs.hasNoLinks hlinks) hdir s.isEntryName_of_mem_files
      hnodup hwritten

/-- The scripts are written when their directory can be made and takes them. -/
theorem exists_write (hlinks : t.HasNoLinks) (hdir : dir.EndsInName) {made : FileTree}
    (hmade : t.makeDirs dir = (made, true)) (htakes : ∀ name ∈ fileNames, made.Takes dir name) :
    ∃ left, s.write dir t = (.ok (paths dir), left) ∧
      ∀ name, made.Takes dir name → left.Takes dir name := by
  have hlinks' : made.HasNoLinks := by
    have hdirs : OnlyWrites dir [] t (t.makeDirs dir).1 := onlyWrites_makeDirs hlinks dir
    rw [hmade] at hdirs
    exact hdirs.hasNoLinks hlinks
  have hfiles : ∀ file ∈ s.files, IsEntryName file.1 ∧ made.Takes dir file.1 := fun file hfile =>
    ⟨isEntryName_of_mem_files file hfile,
      htakes file.1 (s.map_fst_files ▸ List.mem_map_of_mem hfile)⟩
  obtain ⟨left, hwritten, hkeeps⟩ := exists_writeFiles hlinks' hdir hfiles
  refine ⟨left, ?_, hkeeps⟩
  rw [write, hmade]
  dsimp only
  rw [hwritten]
  rfl

end HybridBuild.ScriptSet
