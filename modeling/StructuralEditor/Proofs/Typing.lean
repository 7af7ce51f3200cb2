/-
StructuralEditor/Proofs/Typing.lean

What becomes of a text that is typed.

A commit compares what an edit asks for with the *prepared* snapshot and records
it on top of the *current* one.  The two are the same unless a number is selected
whose text is not canonical.  The canonical text of such a number is what the
prepared snapshot has already, so typing it records nothing, and the number keeps
the text it has.  Every other text is stored as it is typed.
-/
import StructuralEditor.Proofs.Preparation
import StructuralEditor.Proofs.Steps

namespace StructuralEditor

open Document Editing Number

/-! ### Typing -/

theorem Document.Node.canonicalized_leaf (kind : LeafKind) (text : String) :
    (Node.leaf kind text).canonicalized =
      .leaf kind (if kind = .number then normalize text else text) := by
  cases kind <;> rfl

namespace Session

variable {s : Session}

/-- **A typed text is stored, unless it is the canonical text of the number that
it is typed over.**  That number keeps the text it has. -/
theorem run_setText {kind : LeafKind} {old : String}
    (hleaf : s.current.node? = some (.leaf kind old)) (text : String) :
    ∃ reply, s.run (.edit (.setText text)) = .ok reply ∧
      reply.session.current.selected = s.current.selected ∧
      reply.session.current.node? =
        some (.leaf kind (if kind = .number ∧ text = normalize old then old else text)) := by
  obtain ⟨tree, htree, hprepared⟩ := Snapshot.prepared_eq hleaf
  rw [Node.canonicalized_leaf] at htree
  have hbefore := Node.nodeAt?_eq_some.2 (Node.get?_put? htree)
  obtain ⟨rebuilt, hput, hok⟩ := setText_eq_ok hbefore text
  have hafter := Node.nodeAt?_eq_some.2 (Node.get?_put? hput)
  have hchange : ((Edit.setText text).run s.current.prepared).map Outcome.change? =
      .ok (some ⟨some rebuilt, none⟩) := by
    rw [hprepared, Edit.run, hok]
    rfl
  refine ⟨_, commit_of_change? hchange, ?_⟩
  -- the commit compares with the prepared document
  have hsame : s.current.prepared.apply ⟨some rebuilt, none⟩ = s.current.prepared ↔
      rebuilt = tree := by
    rw [hprepared]
    simp [Snapshot.apply]
  simp only [History.record, show s.history.current = s.current from rfl, hsame]
  split
  · next heq =>
    refine ⟨rfl, hleaf.trans ?_⟩
    subst heq
    rw [hbefore] at hafter
    cases kind <;> simp_all
  · next hne =>
    refine ⟨by rw [hprepared]; rfl, ?_⟩
    have htext : ¬ (kind = .number ∧ text = normalize old) := by
      rintro ⟨rfl, rfl⟩
      -- then the document would have been the same
      rw [if_pos rfl] at hbefore
      rw [Node.put?_self (Node.nodeAt?_eq_some.1 hbefore)] at hput
      exact hne (Option.some.inj hput).symm
    rw [if_neg htext, hprepared]
    exact hafter

/-- A text typed over a number: it is stored as it is. -/
theorem run_setText_over_one :
    ∃ s, start Settings.packaged .value (.integer 1) none none none = .ok s ∧
      s.current.node? = some (.number "1") ∧
      ∃ reply, s.run (.edit (.setText "1.")) = .ok reply ∧
        reply.session.current.selected = s.current.selected ∧
        reply.session.current.node? = some (.number "1.") := by
  have hstarts : (start Settings.packaged .value (.integer 1) none none none).toOption.map
      (fun s => s.current.node?) = some (some (.number "1")) := by
    decide +kernel
  obtain ⟨s, hstart, hleaf⟩ := eq_ok_of_toOption_map hstarts
  obtain ⟨reply, hrun, hselected, hnode⟩ := run_setText hleaf "1."
  have htext : ¬ (LeafKind.number = .number ∧ "1." = normalize "1") := by decide +kernel
  rw [if_neg htext] at hnode
  exact ⟨s, hstart, hleaf, reply, hrun, hselected, hnode⟩

/-- The point after the number is taken back: the command records nothing, and the
point stays. -/
theorem run_setText_over_one_point :
    let commands : List Command := [.edit (.setText "1.")]
    ∃ s, start Settings.packaged .value (.integer 1) none none none = .ok s ∧
      (s.afterAll commands).current.node? = some (.number "1.") ∧
      ∃ reply, (s.afterAll commands).run (.edit (.setText "1")) = .ok reply ∧
        reply.answer = .ok (.flag false) ∧ reply.session.current.node? = some (.number "1.") := by
  intro commands
  have hruns : (start Settings.packaged .value (.integer 1) none none none).toOption.map
      (fun s => ((s.afterAll commands).current.node?,
        ((s.afterAll commands).run (.edit (.setText "1"))).toOption.map fun reply =>
          (reply.answer, reply.session.current.node?))) =
      some (some (.number "1."), some (.ok (.flag false), some (.number "1."))) := by
    decide +kernel
  obtain ⟨s, hstart, heq⟩ := eq_ok_of_toOption_map hruns
  obtain ⟨hnode, hreply⟩ := Prod.mk.inj heq
  obtain ⟨reply, hrun, heq⟩ := eq_ok_of_toOption_map hreply
  obtain ⟨hanswer, hafter⟩ := Prod.mk.inj heq
  exact ⟨s, hstart, hnode, reply, hrun, hanswer, hafter⟩

end Session

end StructuralEditor
