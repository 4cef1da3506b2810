import HybridBuild.Facts.Source
import HybridBuild.Proofs.Text.Blank
import HybridBuild.Proofs.Text.Exchange

/-!
# Facts as they are written

Writing and reading undo each other. A text that is read as compile and link facts is, but for the
blanks around it, what these facts are written as. Facts that are written come back when no entry
holds a separator, no list is the one of an empty entry, which is written as no list, and no blank
stands at an end of the text.
-/
namespace HybridBuild

section List

variable {entries : List String}

theorem entrySeparator_ne : entrySeparator.toList ≠ [] := by decide

theorem writeList_readList (text : String) : writeList (readList text) = text := by
  unfold readList
  cases hempty : text.isEmpty with
  | true => simp [writeList, String.isEmpty_iff.mp hempty]
  | false =>
    have htext : (writeList (splitText text entrySeparator)).toList = text.toList := by
      rw [writeList, String.toList_intercalate, splitText, List.map_map]
      simp [Function.comp_def, Text.intercalate_pieces entrySeparator_ne]
    simpa using String.toList_inj.mp htext

/-- An entry that does not hold the separator does not complete one with its first character. -/
theorem not_infix_entry {entry : String} (h : ¬ entrySeparator.toList <:+: entry.toList) :
    ¬ entrySeparator.toList <:+: entry.toList ++ entrySeparator.toList.dropLast :=
  Text.not_pair_infix_append h (by decide) (.inr (by decide))

theorem pieces_writeList (hentries : entries ≠ [])
    (hfree : ∀ entry ∈ entries, ¬ entrySeparator.toList <:+: entry.toList) :
    Text.pieces entrySeparator.toList (writeList entries).toList = entries.map String.toList := by
  rw [writeList, String.toList_intercalate]
  refine Text.pieces_intercalate entrySeparator_ne (by simpa using hentries) ?_
  simpa using fun entry hentry => not_infix_entry (hfree entry hentry)

/-- A list that is written is read as it was, unless it is the list of an empty entry. -/
theorem readList_writeList (hne : entries ≠ [""])
    (hfree : ∀ entry ∈ entries, ¬ entrySeparator.toList <:+: entry.toList) :
    readList (writeList entries) = entries := by
  by_cases hentries : entries = []
  · subst hentries
    rfl
  have hpieces := pieces_writeList hentries hfree
  have htext : (writeList entries).isEmpty = false := by
    refine Bool.eq_false_iff.mpr fun hempty => hne ?_
    have hone : [[]] = entries.map String.toList := by
      rw [← hpieces, String.isEmpty_iff.mp hempty]
      rfl
    have hback := congrArg (List.map String.ofList) hone
    simpa using hback.symm
  simp [readList, htext, splitText, hpieces]

/-- A bar stands in a written list exactly when it stands in one of its entries. -/
theorem bar_mem_writeList_iff :
    '|' ∈ (writeList entries).toList ↔ ∃ entry ∈ entries, '|' ∈ entry.toList := by
  rw [writeList, String.toList_intercalate, Text.mem_intercalate_iff (by decide)]
  simp

end List

theorem length_splitOn {α : Type} [BEq α] [LawfulBEq α] (sep : α) (text : List α) :
    (text.splitOn sep).length = text.count sep + 1 := by
  induction text with
  | nil => simp
  | cons c text ih =>
    rw [List.splitOn_cons_eq_if_modifyHead, List.count_cons]
    split
    · rw [List.length_cons, ih]
    · rw [List.length_modifyHead, ih, Nat.add_zero]

namespace CcInfo

variable {info : CcInfo} {raw : String}

def sections (info : CcInfo) : List (List String) :=
  [info.outputFiles, info.staticLibraries, info.objectFiles, info.includes, info.systemIncludes]

/-- Facts that come back from the text they are written as. -/
structure IsWritable (info : CcInfo) : Prop where
  bars : ∀ list ∈ info.sections, ∀ entry ∈ list, '|' ∉ entry.toList
  separators : ∀ list ∈ info.sections, ∀ entry ∈ list,
    ¬ entrySeparator.toList <:+: entry.toList
  lists : ∀ list ∈ info.sections, list ≠ [""]
  first : info.toAnswer.toList.head?.any Text.isBlank = false
  last : info.toAnswer.toList.getLast?.any Text.isBlank = false

theorem toList_toAnswer (info : CcInfo) :
    info.toAnswer.toList = ['|'].intercalate (info.sections.map fun list =>
      (writeList list).toList) := by
  rw [toAnswer, String.toList_intercalate, List.map_map]
  rfl

/-- What a text is read as has the parts between its bars as its written lists. -/
theorem sections_of_ofAnswer (h : ofAnswer raw = .ok info) :
    info.sections.map (fun list => (writeList list).toList) =
      (trimText raw).toList.splitOn '|' := by
  unfold ofAnswer at h
  dsimp only at h
  split at h
  next outputs libraries objects includes systemIncludes hparts =>
    cases h
    have hback := congrArg (List.map String.toList) hparts
    rw [List.map_map] at hback
    simp only [Function.comp_def, String.toList_ofList, List.map_id'] at hback
    simp [sections, writeList_readList, hback]
  next => cases h

/-- Facts that are read are written as the text without the blanks around it. -/
theorem toAnswer_of_ofAnswer (h : ofAnswer raw = .ok info) : info.toAnswer = trimText raw := by
  refine String.toList_inj.mp ?_
  rw [toList_toAnswer, sections_of_ofAnswer h, List.intercalate_splitOn]

/-- A text is read as facts exactly when it has four bars. -/
theorem exists_ofAnswer_iff :
    (∃ info, ofAnswer raw = .ok info) ↔ (trimText raw).toList.count '|' = 4 := by
  constructor
  · rintro ⟨info, h⟩
    have hlength := congrArg List.length (sections_of_ofAnswer h)
    rw [length_splitOn, List.length_map] at hlength
    exact (Nat.succ.inj hlength).symm
  · intro hcount
    have hlength := length_splitOn '|' (trimText raw).toList
    rw [hcount] at hlength
    obtain ⟨a, b, c, d, e, hparts⟩ :
        ∃ a b c d e, (trimText raw).toList.splitOn '|' = [a, b, c, d, e] := by
      match (trimText raw).toList.splitOn '|', hlength with
      | [a, b, c, d, e], _ => exact ⟨a, b, c, d, e, rfl⟩
    simp [ofAnswer, hparts]

namespace IsWritable

theorem splitOn_toAnswer (h : info.IsWritable) :
    info.toAnswer.toList.splitOn '|' = info.sections.map fun list => (writeList list).toList := by
  rw [toList_toAnswer]
  refine List.splitOn_intercalate _ ?_ (by simp [sections])
  simp only [List.forall_mem_map, bar_mem_writeList_iff, not_exists, not_and]
  exact h.bars

theorem trimText_toAnswer (h : info.IsWritable) : trimText info.toAnswer = info.toAnswer := by
  rw [trimText, Text.trim_of_ends h.first h.last, String.ofList_toList]

theorem ofAnswer_toAnswer (h : info.IsWritable) : ofAnswer info.toAnswer = .ok info := by
  have hread : ∀ list ∈ info.sections, readList (writeList list) = list := fun list hlist =>
    readList_writeList (h.lists list hlist) (h.separators list hlist)
  have hparts : (info.toAnswer.toList.splitOn '|').map String.ofList =
      info.sections.map writeList := by
    simp [h.splitOn_toAnswer]
  simp only [sections, List.map_cons, List.map_nil, List.forall_mem_cons] at hparts hread
  simp [ofAnswer, h.trimText_toAnswer, hparts, hread]

end IsWritable

end CcInfo

namespace CannedFacts

variable {c : CannedFacts} {label : String} {arch : Arch} {info : CcInfo} {r : Request}

theorem answer_withCcInfo :
    (c.withCcInfo label arch info).answer r =
      if canonicalRequest r = canonicalRequest (Facts.ccInfoRequest label arch) then info.toAnswer
      else c.answer r := by
  rw [answer, withCcInfo, Std.TreeMap.getD_insert]
  simp only [Std.LawfulEqOrd.compare_eq_iff_eq, eq_comm (a := canonicalRequest r)]
  rfl

/-- Requests that differ in their canonical form differ in a part of it. -/
theorem canonicalRequest_eq_ccInfoRequest_iff :
    canonicalRequest r = canonicalRequest (Facts.ccInfoRequest label arch) ↔
      r.canonical = canonicalLabel label ∧ r.kind = QueryKind.ccInfo.name ∧ r.arch = arch := by
  rw [canonicalRequest, canonicalRequest, Request.mk.injEq]
  rfl

end CannedFacts

/-- Compile and link facts and their text are inverse. A text is read exactly when it has four
bars, and what is read is written as the text without the blanks around it; facts that can be
written come back from a source that was given them, for every label with the same canonical form,
and the source answers all other requests as it did. -/
theorem CcInfo.written_and_read :
    (∀ raw : String,
      ((∃ info, CcInfo.ofAnswer raw = .ok info) ↔ (trimText raw).toList.count '|' = 4) ∧
        ∀ info, CcInfo.ofAnswer raw = .ok info → info.toAnswer = trimText raw) ∧
    ∀ (c : CannedFacts) (label : String) (arch : Arch) (info : CcInfo),
      (info.IsWritable → ∀ spelled, canonicalLabel spelled = canonicalLabel label →
        ((FactSource.fixed (c.withCcInfo label arch info).toFixed).ccInfo spelled arch).1 =
          .ok (.ok (some info))) ∧
      ∀ r : Request,
        (r.canonical ≠ canonicalLabel label ∨ r.kind ≠ QueryKind.ccInfo.name ∨ r.arch ≠ arch) →
        ((FactSource.fixed (c.withCcInfo label arch info).toFixed).fact r).1 =
          ((FactSource.fixed c.toFixed).fact r).1 := by
  refine ⟨fun raw => ⟨exists_ofAnswer_iff, fun info => toAnswer_of_ofAnswer⟩,
    fun c label arch info => ⟨fun hwritable spelled hspelled => ?_, fun r hother => ?_⟩⟩
  · have hsame : CannedFacts.canonicalRequest (Facts.ccInfoRequest spelled arch) =
        CannedFacts.canonicalRequest (Facts.ccInfoRequest label arch) :=
      CannedFacts.canonicalRequest_eq_ccInfoRequest_iff.mpr ⟨hspelled, rfl, rfl⟩
    have hanswer : (c.withCcInfo label arch info).answer (Facts.ccInfoRequest spelled arch) =
        info.toAnswer := by
      rw [CannedFacts.answer_withCcInfo, if_pos hsame]
    simp [FactSource.ccInfo, FactSource.consult, FactSource.facts, CannedFacts.toFixed,
      Facts.ccInfo, hanswer, hwritable.ofAnswer_toAnswer, Except.map]
  · have hdiffers : CannedFacts.canonicalRequest r ≠
        CannedFacts.canonicalRequest (Facts.ccInfoRequest label arch) := by
      rw [ne_eq, CannedFacts.canonicalRequest_eq_ccInfoRequest_iff]
      tauto
    have hanswer : (c.withCcInfo label arch info).answer r = c.answer r := by
      rw [CannedFacts.answer_withCcInfo, if_neg hdiffers]
    simp [FactSource.fact, FactSource.consult, FactSource.facts, CannedFacts.toFixed, hanswer]

/-- Facts whose entries end in a comma, have blanks at their ends, or are empty. -/
def oddFacts : CcInfo where
  outputFiles := ["out/a,", " out/b", ""]
  objectFiles := []
  staticLibraries := [",", ",", " "]
  includes := ["", ""]
  systemIncludes := ["sys\u00a0", "inc"]

theorem CcInfo.written_and_read_oddFacts :
    (∃ info, CcInfo.ofAnswer "\u2003a, ,||x||\n" = .ok info ∧ info.toAnswer = "a, ,||x||") ∧
      oddFacts.IsWritable ∧ oddFacts.toAnswer = "out/a,,  out/b, |,, ,,  ||, |sys\u00a0, inc" ∧
      ((FactSource.fixed ((CannedFacts.empty ⟨"/out"⟩).withCcInfo "//pkg:a" .arm64
        oddFacts).toFixed).ccInfo "pkg:a" .arm64).1 = .ok (.ok (some oddFacts)) ∧
      ((FactSource.fixed ((CannedFacts.empty ⟨"/out"⟩).withCcInfo "//pkg:a" .arm64
        oddFacts).toFixed).fact (Facts.ccInfoRequest "//pkg:a" .x86)).1 = .ok (some "||||") := by
  have hwritable : oddFacts.IsWritable := by
    constructor <;> decide +kernel
  obtain ⟨info, hread⟩ := (written_and_read.1 "\u2003a, ,||x||\n").1.mpr (by decide +kernel)
  have hwritten := (written_and_read.1 "\u2003a, ,||x||\n").2 info hread
  have hother := (written_and_read.2 (.empty ⟨"/out"⟩) "//pkg:a" .arm64 oddFacts).2
    (Facts.ccInfoRequest "//pkg:a" .x86) (.inr (.inr (by decide)))
  refine ⟨⟨info, hread, hwritten.trans (by decide +kernel)⟩, hwritable, by decide +kernel,
    (written_and_read.2 _ _ _ _).1 hwritable "pkg:a" (by decide +kernel), hother.trans ?_⟩
  rfl

end HybridBuild
