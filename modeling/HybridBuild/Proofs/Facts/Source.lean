import HybridBuild.Facts.Source
import HybridBuild.Proofs.Request.Ledger

/-!
# What a source keeps

Asking a source does not change what it knows, and being invoked does not make a source
usable or unusable for delegation.
-/
namespace HybridBuild.FactSource

variable {src settled : FactSource} {files left : FileTree}

@[simp] theorem note_nil (src : FactSource) : src.note [] = src := by
  cases src <;> rfl

theorem note_note (src : FactSource) (rs qs : List Request) :
    (src.note rs).note qs = src.note (rs ++ qs) := by
  cases src with
  | session s => simp only [note, Session.askAll, Ledger.askAll_append]
  | disabled => rfl
  | fixed f => rfl

@[simp] theorem facts_note (src : FactSource) (rs : List Request) :
    (src.note rs).facts = src.facts := by
  cases src with
  | session s =>
    have hanswer : (s.ledger.askAll rs).answer? = s.ledger.answer? := by
      funext r
      simp
    simp [note, facts, Session.askAll, hanswer]
  | disabled => rfl
  | fixed f => rfl

@[simp] theorem enabled_note (src : FactSource) (rs : List Request) :
    (src.note rs).enabled = src.enabled := by
  simp [enabled]

theorem enabled_of_invoke {result : Except SourceError Unit}
    (h : src.invoke files = (result, settled, left)) : settled.enabled = src.enabled := by
  cases src with
  | disabled => simp [invoke] at h; simp [← h.2.1]
  | fixed f => simp [invoke] at h; simp [← h.2.1]
  | session s =>
    rcases hs : s.invoke files with ⟨e | ⟨⟩, t, left'⟩
    · simp [invoke, hs] at h
      rw [← h.2.1]
      rfl
    · simp [invoke, hs] at h
      rw [← h.2.1]
      rfl

end HybridBuild.FactSource
