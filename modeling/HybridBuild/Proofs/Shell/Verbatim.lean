import HybridBuild.Proofs.Shell.Words
import Mathlib.Data.List.Infix

/-!
# Texts that come back as they are

Reading adds no character: quotes, backslashes, blanks and operators are lost, and all others are
kept. So a text that comes back as a whole word has none of these, if the word ends with the text.
A text that leaves a quote open is another matter, since its word goes on, and could regain what
was lost from what follows. But then the text is what is kept of it, a blank and a rest, and what
is kept leaves a quote open as well, and is shorter, and so on without an end.
-/
namespace HybridBuild.Shell

namespace Mode

/-- The parts of the word that has begun. -/
def begun : Mode → Word
  | outside read => read
  | quoted read text => read ++ [.quoted text]
  | escaped read => read
  | ampersand => []

def text (m : Mode) : List Char := m.begun.flatMap Part.text

@[simp] theorem text_outside (read : Word) : (outside read).text = read.flatMap Part.text := rfl

@[simp] theorem text_escaped (read : Word) : (escaped read).text = read.flatMap Part.text := rfl

@[simp] theorem text_ampersand : ampersand.text = [] := rfl

@[simp] theorem text_quoted (read : Word) (chars : List Char) :
    (quoted read chars).text = read.flatMap Part.text ++ chars := by
  simp [text, begun, Part.text]

end Mode

variable {s s' t : Reader} {c d : Char}

/-- What a character does to what has been read. -/
inductive Effect (s : Reader) (c : Char) : Reader → Prop
  /-- It joins the word as it stands. -/
  | bare {read : Word} (hmode : s.mode = .outside read) (hc : isLiteral c)
      (hopen : opensWord c ∨ read ≠ []) :
      Effect s c { s with mode := .outside (read ++ [.bare c]) }
  /-- It starts or ends a quoted part, or disappears. -/
  | sign {mode : Mode} (htext : mode.text = s.mode.text) : Effect s c { s with mode := mode }
  /-- It joins a quoted part. -/
  | kept {mode : Mode} (hmode : ∀ read, s.mode ≠ .outside read)
      (htext : mode.text = s.mode.text ++ [c]) : Effect s c { s with mode := mode }
  /-- It ends the word. -/
  | wordEnd {read : Word} {mode : Mode} (hmode : s.mode = .outside read) (htext : mode.text = []) :
      Effect s c { s with words := endWord s.words read, mode := mode }
  /-- It ends the command. -/
  | commandEnd (hmode : s.mode = .ampersand) :
      Effect s c ⟨s.ended ++ [s.words], [], .outside []⟩

theorem effect_of_step (h : step s c = some s') : Effect s c s' := by
  obtain ⟨ended, words, mode⟩ := s
  cases mode with
  | outside read =>
    simp only [step, stepOutside] at h
    split at h
    · cases h
      exact .wordEnd rfl rfl
    split at h
    · cases h
      exact .sign (by simp)
    split at h
    · cases h
      exact .sign (by simp)
    split at h
    · cases h
      exact .wordEnd rfl rfl
    split at h
    next hkept =>
      cases h
      simp only [Bool.or_eq_true, Bool.and_eq_true] at hkept
      rcases hkept with hopen | ⟨hc, hread⟩
      · exact .bare rfl (isLiteral_of_opensWord hopen) (.inl hopen)
      · exact .bare rfl hc (.inr (by simpa using hread))
    next => cases h
  | quoted read text =>
    simp only [step, Option.some.injEq] at h
    subst h
    split
    · exact .sign (by simp [Part.text])
    · exact .kept (by simp) (by simp)
  | escaped read =>
    simp only [step, Option.some.injEq] at h
    subst h
    split
    · exact .sign rfl
    · exact .kept (by simp) (by simp [Part.text])
  | ampersand =>
    simp only [step] at h
    split at h
    · cases h
      exact .commandEnd rfl
    · cases h

/-- Where a reader gets to, its words stand where it read them, and the word that it had begun
has gone on from there. -/
inductive Reader.LeadsTo (s t : Reader) : Prop
  /-- The command has not ended. -/
  | here (last : List Word) (hended : t.ended = s.ended) (hwords : t.words = s.words ++ last)
      (htext : s.mode.text <+: ((last ++ [t.mode.begun]).headD []).flatMap Part.text)
  /-- The command has ended. -/
  | later (last : List Word) (more : List (List Word))
      (hended : t.ended = s.ended ++ (s.words ++ last) :: more)
      (htext : s.mode.text <+: (last.headD []).flatMap Part.text)

theorem Effect.leadsTo (h : Effect s c s') (ht : s'.LeadsTo t) : s.LeadsTo t := by
  have hgrows : ∀ {mode : Mode}, s.mode.text <+: mode.text →
      Reader.LeadsTo { s with mode := mode } t → s.LeadsTo t := by
    intro mode hgoes ht
    cases ht with
    | here last hended hwords htext => exact .here last hended hwords (hgoes.trans htext)
    | later last more hended htext => exact .later last more hended (hgoes.trans htext)
  cases h with
  | bare hmode hc hopen => exact hgrows (by simp [hmode]) ht
  | sign htext => exact hgrows (by simp [htext]) ht
  | kept hmode htext => exact hgrows (by simp [htext]) ht
  | @wordEnd read mode hmode htext =>
    by_cases hread : read = []
    · have hwords : endWord s.words read = s.words := by simp [endWord, hread]
      rw [hwords] at ht
      exact hgrows (by simp [hmode, hread]) ht
    · have hwords : endWord s.words read = s.words ++ [read] := by simp [endWord, hread]
      rw [hwords] at ht
      cases ht with
      | here last hended hwords htext =>
        exact .here (read :: last) hended (by simpa using hwords) (by simp [hmode])
      | later last more hended htext =>
        exact .later (read :: last) more (by simpa using hended) (by simp [hmode])
  | commandEnd hmode =>
    cases ht with
    | here last hended hwords htext => exact .later [] [] (by simpa using hended) (by simp [hmode])
    | later last more hended htext =>
      exact .later [] (last :: more) (by simpa using hended) (by simp [hmode])

theorem leadsTo_of_run {text : List Char} (h : run s text = some t) : s.LeadsTo t := by
  induction text generalizing s with
  | nil =>
    cases h
    exact .here [] rfl (by simp) (by simp [Mode.text])
  | cons c text ih =>
    obtain ⟨s', hstep, hrun⟩ := run_cons_eq_some_iff.mp h
    exact (effect_of_step hstep).leadsTo (ih hrun)

/-- Between two places with the same words, no command and no word ends. -/
theorem Reader.LeadsTo.of_eq {u : Reader} (hst : s.LeadsTo t) (htu : t.LeadsTo u)
    (hended : u.ended = s.ended) (hwords : u.words = s.words) :
    t.ended = s.ended ∧ t.words = s.words ∧ t.mode.text <+: u.mode.text := by
  have hle : t.ended.length ≤ u.ended.length := by
    cases htu with
    | here last htu => rw [htu]
    | later last more htu => simp [htu]
  rw [hended] at hle
  cases hst with
  | later last more hst =>
    rw [hst, List.length_append, List.length_cons] at hle
    omega
  | here last hst hlast =>
    cases htu with
    | later last' more htu =>
      have hlength := congrArg List.length (htu.symm.trans (hended.trans hst.symm))
      simp at hlength
    | here last' htu hlast' htext =>
      rw [hwords, hlast, List.append_assoc] at hlast'
      obtain ⟨rfl, rfl⟩ := List.append_eq_nil_iff.mp (List.self_eq_append_right.mp hlast')
      exact ⟨hst, by simpa using hlast, by simpa [Mode.text] using htext⟩

/-- The first command has ended already, or starts with the words that have been read. -/
theorem Reader.LeadsTo.of_ended_eq_cons {command : List Word} {more : List (List Word)}
    (h : s.LeadsTo t) (hended : t.ended = command :: more) :
    (∃ more, s.ended = command :: more) ∨
      s.ended = [] ∧ ∃ last, command = s.words ++ last ∧
        s.mode.text <+: (last.headD []).flatMap Part.text := by
  cases h with
  | here last hsame hwords htext => exact .inl ⟨more, hsame.symm.trans hended⟩
  | later last more' hlater htext =>
    rw [hended] at hlater
    cases hsome : s.ended with
    | nil =>
      rw [hsome] at hlater
      exact .inr ⟨rfl, last, (List.cons.inj hlater).1, htext⟩
    | cons command' ended =>
      rw [hsome] at hlater
      exact .inl ⟨ended, by rw [(List.cons.inj hlater).1]⟩

/-- The characters that have been kept. -/
def Reader.chars (s : Reader) : List Char :=
  (s.ended.flatten ++ s.words).flatMap (·.flatMap Part.text) ++ s.mode.text

theorem Effect.chars_eq (h : Effect s c s') : s'.chars = s.chars ∨ s'.chars = s.chars ++ [c] := by
  cases h with
  | bare hmode hc hopen => exact .inr (by simp [Reader.chars, hmode, Part.text])
  | sign htext => exact .inl (by simp [Reader.chars, htext])
  | kept hmode htext => exact .inr (by simp [Reader.chars, htext])
  | @wordEnd read mode hmode htext =>
    refine .inl ?_
    by_cases hread : read = [] <;> simp [Reader.chars, endWord, hmode, htext, hread]
  | commandEnd hmode => exact .inl (by simp [Reader.chars, hmode])

theorem length_chars_le_of_run {text : List Char} (h : run s text = some t) :
    t.chars.length ≤ s.chars.length + text.length := by
  induction text generalizing s with
  | nil =>
    cases h
    simp
  | cons c text ih =>
    obtain ⟨s', hstep, hrun⟩ := run_cons_eq_some_iff.mp h
    have hrest := ih hrun
    rcases (effect_of_step hstep).chars_eq with heq | heq
    · rw [heq] at hrest
      simp only [List.length_cons]
      omega
    · rw [heq, List.length_append] at hrest
      simp only [List.length_cons, List.length_nil] at hrest ⊢
      omega

/-- When all characters of a text are kept, none of them is a sign. -/
theorem forall_isLiteral_of_run {read : Word} {text : List Char} (hmode : s.mode = .outside read)
    (h : run s text = some t) (hkept : s.chars.length + text.length ≤ t.chars.length) :
    (∀ c ∈ text, isLiteral c) ∧ (read = [] → ∀ c ∈ text.head?, opensWord c) := by
  induction text generalizing s read with
  | nil => simp
  | cons c text ih =>
    obtain ⟨s', hstep, hrun⟩ := run_cons_eq_some_iff.mp h
    have hlost : s'.chars ≠ s.chars := by
      intro heq
      have hle := length_chars_le_of_run hrun
      rw [heq] at hle
      simp only [List.length_cons] at hkept
      omega
    cases effect_of_step hstep with
    | @bare read' hmode' hc hopen =>
      obtain rfl : read' = read := by simpa using hmode'.symm.trans hmode
      have hchars : (Reader.mk s.ended s.words (.outside (read' ++ [.bare c]))).chars =
          s.chars ++ [c] := by simp [Reader.chars, hmode', Part.text]
      have hrest := ih rfl hrun (by
        rw [hchars, List.length_append, Nat.add_assoc, Nat.add_comm [c].length]
        exact hkept)
      refine ⟨List.forall_mem_cons.mpr ⟨hc, hrest.1⟩, fun hread => ?_⟩
      simpa [hread] using hopen
    | sign htext => exact absurd (by simp [Reader.chars, htext]) hlost
    | kept hmode' htext => exact absurd hmode (hmode' read)
    | @wordEnd read' mode hmode' htext =>
      refine absurd ?_ hlost
      by_cases hread : read' = [] <;> simp [Reader.chars, endWord, hmode', htext, hread]
    | commandEnd hmode' => exact absurd (hmode'.symm.trans hmode) (by simp)

/-- A character that stands for itself is kept as the last one of a word. -/
theorem mode_of_step_literal (hc : isLiteral c) (h : step s c = some s') :
    (∃ init, s'.mode.text = init ++ [c]) ∧
      ((∃ read, s'.mode = .outside read) ∨ ∃ read text, s'.mode = .quoted read text) := by
  obtain ⟨ended, words, mode⟩ := s
  cases mode with
  | outside read =>
    have hblank : ¬(c = ' ' || c = '\t') := by
      simp [ne_of_isLiteral hc (d := ' ') (by decide), ne_of_isLiteral hc (d := '\t') (by decide)]
    simp only [step, stepOutside, if_neg hblank,
      if_neg (ne_of_isLiteral hc (d := '\'') (by decide)),
      if_neg (ne_of_isLiteral hc (d := '\\') (by decide)),
      if_neg (ne_of_isLiteral hc (d := '&') (by decide))] at h
    split at h
    · cases h
      exact ⟨⟨read.flatMap Part.text, by simp [Part.text]⟩, .inl ⟨_, rfl⟩⟩
    · cases h
  | quoted read text =>
    simp only [step, if_neg (ne_of_isLiteral hc (d := '\'') (by decide)), Option.some.injEq] at h
    subst h
    exact ⟨⟨read.flatMap Part.text ++ text, by simp⟩, .inr ⟨_, _, rfl⟩⟩
  | escaped read =>
    simp only [step, if_neg (ne_of_isLiteral hc (d := '\n') (by decide)), Option.some.injEq] at h
    subst h
    exact ⟨⟨read.flatMap Part.text, by simp [Part.text]⟩, .inl ⟨_, rfl⟩⟩
  | ampersand =>
    simp [step, ne_of_isLiteral hc (d := '&') (by decide)] at h

/-- A command that others follow has ended. -/
theorem exists_run_of_read? {text : String} {command : List Word} {more : List (List Word)}
    (h : read? text = some (command :: more)) (hmore : more ≠ []) :
    ∃ t more, run .start text.toList = some t ∧ t.ended = command :: more := by
  unfold read? at h
  split at h
  next ended words read hrun =>
    cases ended with
    | nil => exact absurd (List.cons.inj (Option.some.inj h)).2.symm hmore
    | cons command' ended =>
      obtain ⟨rfl, -⟩ := List.cons.inj (Option.some.inj h)
      exact ⟨_, ended, hrun, rfl⟩
  next => cases h

section Literal

variable {init text rest : List Char}

/-- A text that ends with a literal character ends in a word, within quotes or outside. -/
theorem mode_of_run_literal (hc : isLiteral c) (h : run s (init ++ [c]) = some s') :
    (∃ init, s'.mode.text = init ++ [c]) ∧
      ((∃ read, s'.mode = .outside read) ∨ ∃ read text, s'.mode = .quoted read text) := by
  obtain ⟨s'', -, hstep⟩ := run_append_eq_some_iff.mp h
  refine mode_of_step_literal hc (s := s'') ?_
  simpa [run] using hstep

/-- A blank ends a word outside of quotes and joins it within. -/
theorem step_blank_outside {read : Word} (hmode : s.mode = .outside read) (hread : read ≠ []) :
    step s ' ' = some { s with words := s.words ++ [read], mode := .outside [] } := by
  simp [step, hmode, stepOutside, endWord, hread]

theorem step_blank_quoted {read : Word} {chars : List Char} (hmode : s.mode = .quoted read chars) :
    step s ' ' = some { s with mode := .quoted read (chars ++ [' ']) } := by
  simp [step, hmode]

/-- A text that leaves a quote open in a word does not start with what is kept of it and a blank.
If it did, what is kept would leave a quote open as well, since the blank does not end the word,
and would start with what is kept of it and a blank. -/
theorem ne_append_blank_of_run {ended : List (List Word)} {before : List Word} {read : Word}
    {chars : List Char} (hd : isLiteral d)
    (h : run ⟨ended, before, .outside []⟩ (init ++ [d]) =
      some ⟨ended, before, .quoted read chars⟩) :
    init ++ [d] ≠ (Mode.quoted read chars).text ++ ' ' :: rest := by
  generalize hlength : init.length = n
  induction n using Nat.strong_induction_on generalizing init rest read chars with
  | h n ih =>
    intro heq
    obtain ⟨⟨init', hkept⟩, -⟩ := mode_of_run_literal hd h
    simp only at hkept
    rw [heq, hkept] at h
    obtain ⟨s', hrun, hrest⟩ := run_append_eq_some_iff.mp h
    obtain ⟨hended, hwords, -⟩ := (leadsTo_of_run hrun).of_eq (leadsTo_of_run hrest) rfl rfl
    obtain ⟨s'', hblank, hrest⟩ := run_cons_eq_some_iff.mp hrest
    have hone : run s' [' '] = some s'' := by simpa [run] using hblank
    obtain ⟨-, hsame, hgoes⟩ :=
      (leadsTo_of_run hone).of_eq (leadsTo_of_run hrest) hended.symm hwords.symm
    obtain ⟨⟨init'', htext⟩, ⟨word, hmode⟩ | ⟨read', chars', hmode⟩⟩ := mode_of_run_literal hd hrun
    · have hword : word ≠ [] := by
        rintro rfl
        simp [hmode] at htext
      rw [step_blank_outside hmode hword] at hblank
      cases hblank
      simp at hsame
    · rw [step_blank_quoted hmode] at hblank
      cases hblank
      obtain ⟨rest', hrest'⟩ := hgoes
      have hagain : init' ++ [d] = (Mode.quoted read' chars').text ++ ' ' :: rest' := by
        rw [← hkept, ← hrest']
        simp
      refine ih init'.length ?_ ?_ rfl hagain
      · have := congrArg List.length heq
        simp [hkept] at this
        omega
      · obtain ⟨ended', words', mode'⟩ := s'
        simp only at hended hwords hmode
        rw [hrun, hended, hwords, hmode]

/-- Where a word and a text have both been kept, the text is read as it stands. -/
theorem isVerbatim_of_kept {first w : Word} (hrun : run ⟨[], [first], .outside []⟩ text = some s)
    (hw : w.flatMap Part.text = text)
    (h : [first, w] <+: s.ended.flatten ++ s.words ++ [s.mode.begun]) : IsVerbatim text := by
  obtain ⟨others, heq⟩ := h
  have hall : s.chars = (s.ended.flatten ++ s.words ++ [s.mode.begun]).flatMap
      (·.flatMap Part.text) := by simp [Reader.chars, Mode.text]
  have hkept : (Reader.mk [] [first] (.outside [])).chars.length + text.length ≤
      s.chars.length := by
    rw [hall, ← heq]
    simp only [Reader.chars, List.cons_append, List.nil_append, List.flatMap_cons, hw,
      List.flatten_nil, List.flatMap_nil, List.append_nil, Mode.text_outside, List.length_append]
    omega
  obtain ⟨hliteral, hopens⟩ := forall_isLiteral_of_run rfl hrun hkept
  exact ⟨hliteral, hopens rfl⟩

/-- A text between two blanks that comes back as the second word of the first command is read as
it stands. The blank behind it either ends the second word, or joins a word, which is the second
one or comes after it. -/
theorem isVerbatim_of_run {first first' w : Word} {more : List (List Word)} (hd : isLiteral d)
    (h : run ⟨[], [first], .outside []⟩ (init ++ [d] ++ ' ' :: rest) = some t)
    (hended : t.ended = [first', w] :: more) (hw : w.flatMap Part.text = init ++ [d]) :
    IsVerbatim (init ++ [d]) := by
  obtain rfl : first = first' := by
    obtain ⟨_, hnone⟩ | ⟨-, last, heq, -⟩ := (leadsTo_of_run h).of_ended_eq_cons hended
    · cases hnone
    · exact (List.cons.inj heq).1.symm
  obtain ⟨s, hrun, hrest⟩ := run_append_eq_some_iff.mp h
  obtain ⟨s', hblank, hrest⟩ := run_cons_eq_some_iff.mp hrest
  have hbefore : ∀ more, s.ended = [first, w] :: more → IsVerbatim (init ++ [d]) :=
    fun more heq => isVerbatim_of_kept hrun hw (by simp [heq])
  have hfirst : s.ended = [] → ∃ others, s.words = first :: others := by
    intro hnone
    cases leadsTo_of_run hrun with
    | here last _ hwords _ => exact ⟨last, hwords⟩
    | later last more' hlater _ => simp [hnone] at hlater
  obtain ⟨⟨init', htext⟩, ⟨read, hmode⟩ | ⟨read, chars, hmode⟩⟩ := mode_of_run_literal hd hrun
  · have hread : read ≠ [] := by
      rintro rfl
      simp [hmode] at htext
    rw [step_blank_outside hmode hread] at hblank
    cases hblank
    obtain ⟨more', heq⟩ | ⟨hnone, last, heq, -⟩ := (leadsTo_of_run hrest).of_ended_eq_cons hended
    · exact hbefore more' heq
    · replace hnone : s.ended = [] := hnone
      obtain ⟨others, hothers⟩ := hfirst hnone
      have hwords : s.words ++ [read] <+: [first, w] := ⟨last, heq.symm⟩
      have hboth := hwords.eq_of_length_le (by simp [hothers])
      exact isVerbatim_of_kept hrun hw (by simp [hnone, hmode, Mode.begun, hboth])
  · rw [step_blank_quoted hmode] at hblank
    cases hblank
    obtain ⟨more', heq⟩ | ⟨hnone, last, heq, hgoes⟩ :=
      (leadsTo_of_run hrest).of_ended_eq_cons hended
    · exact hbefore more' heq
    · obtain ⟨others, hothers⟩ := hfirst hnone
      simp only at hnone heq
      rw [hothers, List.cons_append, List.cons.injEq] at heq
      cases others with
      | cons other others =>
        obtain ⟨rfl, -⟩ := List.cons.inj heq.2
        exact isVerbatim_of_kept hrun hw (by simp [hnone, hothers])
      | nil =>
        obtain ⟨rest', hrest'⟩ := hgoes
        obtain ⟨ended, words, mode⟩ := s
        obtain rfl : [w] = last := heq.2
        simp only at hnone hothers hmode
        subst hnone hothers hmode
        have hregained : init ++ [d] = (Mode.quoted read chars).text ++ ' ' :: rest' := by
          rw [← hw]
          simpa using hrest'.symm
        exact absurd hregained (ne_append_blank_of_run hd hrun)

end Literal

end HybridBuild.Shell
